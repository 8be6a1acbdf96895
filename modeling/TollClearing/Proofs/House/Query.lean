import TollClearing.Proofs.House.Listing
import TollClearing.Proofs.Record.Payload
import TollClearing.Proofs.Text.Utf8

/-!
Queries by what records are. A query is put to the texts of records, but it answers the records
that are of its kind, lie between its agencies and have the values that it names: all of them, each
once, in ascending order of their keys, up to the limit.
-/

set_option autoImplicit false

namespace TollClearing

theorem Key.partitionOf_ne_empty (domain : String) (parties : Sym2 String) :
    partitionOf domain parties ≠ "" := by
  induction parties with
  | h a b => exact partition_ne_empty domain a b

def DocType.domain : DocType → String
  | .settlement => "settlements"
  | _ => "charges"

theorem DocType.isPlain_domain (d : DocType) : Key.IsPlain d.domain := by cases d <;> decide

/-- Where the records of a kind lie that are between two agencies or, without any, shared. -/
def Scope.between (d : DocType) : Option (Sym2 String) → Scope
  | some parties => .partition (Key.partitionOf d.domain parties)
  | none => .shared

theorem Scope.checkScope_between (d : DocType) (parties : Option (Sym2 String)) :
    Ledger.checkScope (between d parties) = .ok () := by
  cases parties with
  | none => rfl
  | some parties => exact if_neg (Key.partitionOf_ne_empty d.domain parties)

/-- The place of a record tells its agencies, whatever its kind is. -/
theorem Scope.parties_eq_of_between_eq {d e : DocType} {parties others : Option (Sym2 String)}
    (hplain : ∀ p ∈ parties, ∀ a ∈ p, Key.IsPlain a) (h : between d parties = between e others) :
    parties = others := by
  cases parties with
  | none =>
    cases others with
    | none => rfl
    | some _ => cases h
  | some p =>
    cases others with
    | none => cases h
    | some q =>
      have hname := Scope.partition.inj h
      rw [((Key.partitionOf_inj d.isPlain_domain e.isPlain_domain (hplain p rfl)).1 hname).2]

theorem Scope.between_inj {d : DocType} {parties others : Option (Sym2 String)}
    (hplain : ∀ p ∈ parties, ∀ a ∈ p, Key.IsPlain a) :
    between d parties = between d others ↔ parties = others :=
  ⟨parties_eq_of_between_eq hplain, congrArg (between d)⟩

namespace DocType

variable {d : DocType}

theorem exists_toRecord {r : Record} (h : r.docType = d) :
    ∃ a : d.Carrier, Recorded.toRecord a = r := by
  cases r <;> cases h <;> exact ⟨_, rfl⟩

theorem any_ofRecord? (d : DocType) (r : Record) (test : Record → Bool) :
    (Recorded.ofRecord? r : Option d.Carrier).any (fun a => test (Recorded.toRecord a))
      = (decide (r.docType = d) && test r) := by
  cases d <;> cases r <;> rfl

end DocType

namespace Record

def parties? : Record → Option (Sym2 String)
  | .charge c => some s(c.away, c.home)
  | .correction c => some s(c.away, c.home)
  | .reconciliation r => some s(r.away, r.home)
  | .settlement s => some s(s.payor, s.payee)
  | .agency _ | .tag _ | .acknowledgement _ => none

theorem scope_eq_between (r : Record) : r.scope = Scope.between r.docType r.parties? := by
  cases r <;> rfl

theorem plain_parties {r : Record} (h : r.validate = .ok ()) :
    ∀ p ∈ r.parties?, ∀ a ∈ p, Key.IsPlain a := by
  have hplain := plain_identity h
  intro p hp
  cases r <;> simp only [parties?, Option.mem_def, Option.some.injEq, reduceCtorEq] at hp <;>
    subst hp <;> exact hplain.1

end Record

namespace House

/-- What a query asks for. The two agencies that some kinds lie between stand in no order. -/
inductive Query where
  | agenciesIn (status : AgencyStatus)
  | tagsOf (issuer : String)
  | tagsIn (issuer : String) (status : TagStatus)
  | chargesIn (parties : Sym2 String) (status : ChargeStatus)
  | chargesBy (parties : Sym2 String) (issuer serial : String)
  | correctionsOf (parties : Sym2 String) (charge : String)
  | reconciliationsWith (parties : Sym2 String) (disposition : Disposition)
  | acknowledgementsTo (sender : String)
  | settlementsIn (parties : Sym2 String) (status : SettlementStatus)

namespace Query

def docType : Query → DocType
  | .agenciesIn _ => .agency
  | .tagsOf _ | .tagsIn .. => .tag
  | .chargesIn .. | .chargesBy .. => .charge
  | .correctionsOf .. => .correction
  | .reconciliationsWith .. => .reconciliation
  | .acknowledgementsTo _ => .acknowledgement
  | .settlementsIn .. => .settlement

def parties? : Query → Option (Sym2 String)
  | .chargesIn parties _ | .chargesBy parties _ _ | .correctionsOf parties _
  | .reconciliationsWith parties _ | .settlementsIn parties _ => some parties
  | .agenciesIn _ | .tagsOf _ | .tagsIn .. | .acknowledgementsTo _ => none

/-- The record has the values that the query names. -/
def Names : Query → Record → Prop
  | .agenciesIn status, .agency a => a.status = some status
  | .tagsOf issuer, .tag t => t.agency = issuer
  | .tagsIn issuer status, .tag t => t.agency = issuer ∧ t.status = some status
  | .chargesIn _ status, .charge c => c.status = some status
  | .chargesBy _ issuer serial, .charge c => c.tagAgency = issuer ∧ c.tagSerial = serial
  | .correctionsOf _ charge, .correction k => k.charge = charge
  | .reconciliationsWith _ disposition, .reconciliation r => r.disposition = disposition.wire
  | .acknowledgementsTo sender, .acknowledgement a => a.sender = sender
  | .settlementsIn _ status, .settlement b => b.status = some status
  | _, _ => False

instance (Q : Query) (r : Record) : Decidable (Q.Names r) := by
  unfold Names
  split <;> infer_instance

structure AsksFor (Q : Query) (r : Record) : Prop where
  docType_eq : r.docType = Q.docType
  parties_eq : r.parties? = Q.parties?
  names : Q.Names r

/-- A tag without an issuer or a serial number is not written, so such a query finds nothing. -/
def Blind : Query → Prop
  | .chargesBy _ issuer serial => issuer = "" ∨ serial = ""
  | _ => False

instance (Q : Query) : Decidable Q.Blind := by
  unfold Blind
  split <;> infer_instance

def scope (Q : Query) : Scope := .between Q.docType Q.parties?

def fields : Query → List (String × String)
  | .agenciesIn status => [("status", Code.wire status)]
  | .tagsOf issuer => [("tagAgencyID", issuer)]
  | .tagsIn issuer status => [("tagAgencyID", issuer), ("tagStatus", Code.wire status)]
  | .chargesIn _ status => [("status", Code.wire status)]
  | .chargesBy _ issuer serial => [("tagAgencyID", issuer), ("tagSerialNumber", serial)]
  | .correctionsOf _ charge => [("originalChargeID", charge)]
  | .reconciliationsWith _ disposition => [("postingDisposition", disposition.wire)]
  | .acknowledgementsTo sender => [("fromAgencyID", sender)]
  | .settlementsIn _ status => [("status", Code.wire status)]

theorem nodup_names (Q : Query) : (Q.fields.map Prod.fst ++ [Record.docTypeName]).Nodup := by
  cases Q <;> simp [fields, Record.docTypeName]

theorem names_asRead (Q : Query) (r : Record) : Q.Names r.asRead ↔ Q.Names r := by
  cases Q <;> cases r <;> rfl

theorem all_shows (Q : Query) {r : Record} (h : r.docType = Q.docType) :
    (Q.fields.all fun row => r.shows row.1 row.2) = decide (Q.Names r ∧ ¬ Q.Blind) := by
  cases Q <;> cases r <;> cases h
  case chargesBy.charge.refl parties issuer serial c =>
    simp [fields, Names, Blind, Bool.and_assoc, Bool.and_left_comm]
  all_goals simp [fields, Names, Blind]

/-- A query sees the texts of the records that have the values that it names. -/
theorem accepts_eq (Q : Query) (r : Record) :
    (kindSelector Q.docType Q.fields).accepts r.toJson
      = (decide (r.asRead.docType = Q.docType) && decide (Q.Names r.asRead ∧ ¬ Q.Blind)) := by
  rw [accepts_kindSelector Q.nodup_names, Record.docType_asRead]
  by_cases h : r.docType = Q.docType
  · simp only [Q.all_shows h, Q.names_asRead]
  · simp [h]

def keeps (Q : Query) (a : Q.docType.Carrier) : Bool :=
  decide (Q.Names (Recorded.toRecord a) ∧ ¬ Q.Blind)

end Query

def Call.query? (c : Call) : Option (Except Violation Query) :=
  match c.name, c.arguments with
  | "QueryAgenciesByStatus", [code] =>
    some ((Rule.knownCode Code.ofWire? "status" code).map .agenciesIn)
  | "QueryTagsByAgency", [issuer] => some (.ok (.tagsOf issuer))
  | "QueryTagsByStatus", [issuer, code] =>
    some ((Rule.knownCode Code.ofWire? "tagStatus" code).map (.tagsIn issuer))
  | "QueryChargesByStatus", [away, home, code] =>
    some ((Rule.knownCode Code.ofWire? "status" code).map (.chargesIn s(away, home)))
  | "QueryChargesByTag", [away, home, issuer, serial] =>
    some (.ok (.chargesBy s(away, home) issuer serial))
  | "QueryCorrectionsByCharge", [away, home, id] => some (.ok (.correctionsOf s(away, home) id))
  | "QueryReconciliationsByDisposition", [away, home, code] =>
    some ((Rule.knownCode Code.ofWire? "postingDisposition" code).map
      (.reconciliationsWith s(away, home)))
  | "QueryAcknowledgementsBySender", [sender] => some (.ok (.acknowledgementsTo sender))
  | "QuerySettlementsByStatus", [payor, payee, code] =>
    some ((Rule.knownCode Code.ofWire? "status" code).map (.settlementsIn s(payor, payee)))
  | _, _ => none

def Query.request (Q : Query) : Request := .list Q.docType Q.scope Q.fields

/-- A function that takes the code of a state makes its query, or refuses the code. -/
theorem state_list (R : Type) {σ : Type} [Code σ] [Staged R σ] (code : String) (Q : σ → Query) :
    (Function.state R code >>= fun s => Except.ok (Q s).request)
      = (((Rule.knownCode Code.ofWire? (Staged.member R) code).map Q).map Query.request).mapError
        .rejected := by
  unfold Function.state Rule.knownCode
  cases (Code.ofWire? code : Option σ) <;> rfl

theorem disposition_list (code : String) (Q : Disposition → Query) :
    (Function.disposition code >>= fun d => Except.ok (Q d).request)
      = (((Rule.knownCode Code.ofWire? "postingDisposition" code).map Q).map
        Query.request).mapError .rejected := by
  unfold Function.disposition Rule.knownCode
  cases (Code.ofWire? code : Option Disposition) <;> rfl

theorem request_query {c : Call} {asked : Except Violation Query} (h : c.query? = some asked) :
    ∃ f, Function.ofName? c.name = some f ∧
      f.request c.arguments = (asked.map Query.request).mapError .rejected := by
  obtain ⟨now, name, arguments⟩ := c
  unfold Call.query? at h
  split at h <;> simp only [Option.some.injEq, reduceCtorEq] at h <;> subst h <;> subst_vars
  · exact ⟨_, rfl, state_list Agency _ .agenciesIn⟩
  · exact ⟨_, rfl, rfl⟩
  · exact ⟨_, rfl, state_list Tag _ (.tagsIn _)⟩
  · rename_i away home code
    exact ⟨_, rfl, state_list Charge code (.chargesIn s(away, home))⟩
  · exact ⟨_, rfl, rfl⟩
  · exact ⟨_, rfl, rfl⟩
  · rename_i away home code
    exact ⟨_, rfl, disposition_list code (.reconciliationsWith s(away, home))⟩
  · exact ⟨_, rfl, rfl⟩
  · rename_i payor payee code
    exact ⟨_, rfl, state_list Settlement code (.settlementsIn s(payor, payee))⟩

section WellKept

variable {l : Ledger} (hl : WellKept l)

include hl

theorem WellKept.exists_recordAt?_iff {scope : Scope} {r : Record} :
    (∃ key, recordAt? l ⟨scope, key⟩ = some r) ↔ Holds l r ∧ r.scope = scope := by
  constructor
  · rintro ⟨key, h⟩
    exact ⟨holds_of_recordAt? h, congrArg Slot.scope (hl.slot_of_recordAt? h)⟩
  · rintro ⟨h, rfl⟩
    obtain ⟨s, hfind, rfl, -⟩ := hl.exists_of_holds h
    exact ⟨_, recordAt?_of_find? hfind⟩

theorem WellKept.scope_eq_iff {Q : Query} {r : Record} (hr : Holds l r)
    (hkind : r.docType = Q.docType) : r.scope = Q.scope ↔ r.parties? = Q.parties? := by
  obtain ⟨s, -, rfl, horder⟩ := hl.exists_of_holds hr
  rw [Record.scope_eq_between, hkind]
  exact Scope.between_inj (Record.plain_parties (Record.validate_asRead horder.validate))

theorem WellKept.list_query (p : Policy) (Q : Query) :
    list p l Q.docType Q.scope Q.fields = .ok (.listed ((((stored Q.docType.Carrier l
      Q.scope).filter Q.keeps).take p.limit).map Recorded.toRecord)) := by
  have hkeep : ∀ r : Record,
      (kindSelector (Recorded.docType Q.docType.Carrier) Q.fields).accepts r.toJson
        = (Recorded.ofRecord? r.asRead : Option Q.docType.Carrier).any Q.keeps := by
    intro r
    rw [DocType.docType_carrier, Q.accepts_eq]
    exact (Q.docType.any_ofRecord? r.asRead fun r => decide (Q.Names r ∧ ¬ Q.Blind)).symm
  have hlist := hl.list_eq (p := p)
    (fun a => (DocType.docType_toRecord a).trans (DocType.docType_carrier _).symm) hkeep
    (Scope.checkScope_between Q.docType Q.parties?)
  rwa [DocType.docType_carrier] at hlist

theorem WellKept.process_query (p : Policy) (now : Instant) (Q : Query) :
    ∃ rs : List Record, process p now l Q.request = .ok (.listed (rs.take p.limit)) ∧
      (rs.map Record.key).Pairwise (· < ·) ∧
      ∀ r, r ∈ rs ↔ Holds l r ∧ Q.AsksFor r ∧ ¬ Q.Blind := by
  refine ⟨((stored Q.docType.Carrier l Q.scope).filter Q.keeps).map Recorded.toRecord, ?_, ?_, ?_⟩
  · rw [← List.map_take]
    exact hl.list_query p Q
  · rw [List.map_map]
    have hkeys := hl.ascending_keys_stored Q.docType.Carrier Q.scope
    exact List.pairwise_map.2 ((List.pairwise_map.1 hkeys).filter _)
  · intro r
    simp only [List.mem_map, List.mem_filter, mem_stored_iff, Query.keeps, decide_eq_true_eq]
    constructor
    · rintro ⟨a, ⟨hstored, hnames, hblind⟩, rfl⟩
      obtain ⟨hr, hscope⟩ := hl.exists_recordAt?_iff.1 hstored
      have hkind := DocType.docType_toRecord a
      exact ⟨hr, ⟨hkind, (hl.scope_eq_iff hr hkind).1 hscope, hnames⟩, hblind⟩
    · rintro ⟨hr, ⟨hkind, hparties, hnames⟩, hblind⟩
      obtain ⟨a, rfl⟩ := DocType.exists_toRecord hkind
      exact ⟨a, ⟨hl.exists_recordAt?_iff.2 ⟨hr, (hl.scope_eq_iff hr hkind).2 hparties⟩, hnames,
        hblind⟩, rfl⟩

end WellKept

end House

end TollClearing
