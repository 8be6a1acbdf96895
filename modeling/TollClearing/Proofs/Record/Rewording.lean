import Mathlib.Logic.Relation
import TollClearing.House.Fault
import TollClearing.Proofs.Record.Kinds

/-!
Payloads that say the same. What is read from a payload does not change with the order of members,
with members that the kind does not know or with the member that tells the kind itself, and a
blank-tolerant member may be left out, `null` or blank. A member that tells another kind is always
refused.
-/

set_option autoImplicit false

namespace TollClearing

namespace Json

def table (ms : Members) : Table Json := Table.ofList (ms.map fun m => (m.1, m.2.canonical))

theorem find?_table (ms : Members) (name : String) :
    (table ms).find? name = (ms.reverse.lookup name).map canonical := by
  rw [table, Table.find?_ofList, ← List.map_reverse, Table.lookup_map]

section Lookups

variable {ms ns : Members} {name : String}

theorem find?_table_of_not_mem (h : name ∉ ms.map Prod.fst) : (table ms).find? name = none := by
  have hreverse : name ∉ ms.reverse.map Prod.fst := by simpa using h
  rw [find?_table, Table.lookup_eq_none_of_not_mem hreverse, Option.map_none]

theorem find?_table_member (v : Json) (h : name ∉ ns.map Prod.fst) :
    (table (ms ++ (name, v) :: ns)).find? name = some v.canonical := by
  have hreverse : name ∉ ns.reverse.map Prod.fst := by simpa using h
  rw [find?_table, List.reverse_append, List.reverse_cons, List.append_assoc,
    Layout.lookup_append_right hreverse, List.singleton_append, List.lookup_cons_self,
    Option.map_some]

theorem find?_table_of_ne (v : Json) {other : String} (h : other ≠ name) :
    (table (ms ++ (name, v) :: ns)).find? other = (table (ms ++ ns)).find? other := by
  rw [find?_table, find?_table, List.reverse_append, List.reverse_append, List.reverse_cons,
    List.append_assoc, List.singleton_append, List.lookup_append, List.lookup_append,
    Table.lookup_row, if_neg h]

end Lookups

theorem canonical_of_not_isTold {v : Json} (h : ¬ v.IsTold) : v.canonical = v := by
  cases v <;> simp_all [IsTold, canonical]

theorem missing_none : Missing none := by simp [Missing]

theorem missing_some {v : Json} (h : ¬ v.IsTold) : Missing (some v.canonical) := by
  rw [canonical_of_not_isTold h]
  rintro w ⟨rfl⟩
  exact h

theorem saysSame_of_blank {tolerant : List String} {ms ns : Members} {name other : String}
    {v : Json} (hname : name ∈ tolerant) (habsent : name ∉ (ms ++ ns).map Prod.fst) (hv : ¬ v.IsTold) :
    SaysSame tolerant other ((table (ms ++ ns)).find? other)
      ((table (ms ++ (name, v) :: ns)).find? other) := by
  by_cases h : other = name
  · subst h
    have hafter : other ∉ ns.map Prod.fst := fun hmem =>
      habsent (by rw [List.map_append]; exact List.mem_append_right _ hmem)
    rw [find?_table_of_not_mem habsent, find?_table_member v hafter]
    exact .missing hname missing_none (missing_some hv)
  · rw [find?_table_of_ne v h]
    exact .same _

end Json

namespace DiscountPlan

theorem ofJson_blank {ms ns : Json.Members} {name : String} {v : Json} (hname : name ∈ blankNames)
    (habsent : name ∉ (ms ++ ns).map Prod.fst) (hv : ¬ v.IsTold) :
    layout.ofJson (Json.canonical (.object (ms ++ ns)))
      = layout.ofJson (Json.canonical (.object (ms ++ (name, v) :: ns))) := by
  rw [Json.canonical_object, Json.canonical_object]
  exact determined_layout.ofMembers_eq fun _ _ => Json.saysSame_of_blank hname habsent hv

theorem readAll_congr {v w : Json} (h : layout.ofJson v = layout.ofJson w) (vs ws : List Json) :
    readAll (vs ++ v :: ws) = readAll (vs ++ w :: ws) := by
  induction vs with
  | nil => rw [List.nil_append, List.nil_append, readAll, readAll, h]
  | cons u vs ih => rw [List.cons_append, List.cons_append, readAll, readAll, ih]

end DiscountPlan

namespace DocType

/-- One change of a payload after which it says the same about a record of the kind `d`. -/
inductive Rewording (d : DocType) : Json → Json → Prop where
  /-- The members of an object, at whatever depth, come in another order. -/
  | order {v w : Json} (h : v.Rearranged w) : Rewording d v w
  /-- A member comes in that the kind does not know. -/
  | unknown {name : String} (hname : name ∉ d.names) (hother : name ≠ Record.docTypeName)
      (ms ns : Json.Members) (v : Json) :
      Rewording d (.object (ms ++ ns)) (.object (ms ++ (name, v) :: ns))
  /-- The kind is told. -/
  | told (ms ns : Json.Members) (habsent : Record.docTypeName ∉ (ms ++ ns).map Prod.fst) :
      Rewording d (.object (ms ++ ns))
        (.object (ms ++ (Record.docTypeName, .string d.wire) :: ns))
  /-- A blank-tolerant member comes in without a value. -/
  | blank {name : String} (hname : name ∈ d.blankNames) (ms ns : Json.Members)
      (habsent : name ∉ (ms ++ ns).map Prod.fst) {v : Json} (hv : ¬ v.IsTold) :
      Rewording d (.object (ms ++ ns)) (.object (ms ++ (name, v) :: ns))
  /-- A date of a discount plan comes in without a value. -/
  | plan {name : String} (hname : name ∈ DiscountPlan.blankNames) (ps qs : Json.Members)
      (habsent : name ∉ (ps ++ qs).map Prod.fst) {v : Json} (hv : ¬ v.IsTold) (vs ws : List Json)
      (ms ns : Json.Members) (honce : "discountPlans" ∉ ns.map Prod.fst) :
      Rewording d
        (.object (ms ++ ("discountPlans", .array (vs ++ .object (ps ++ qs) :: ws)) :: ns))
        (.object
          (ms ++ ("discountPlans", .array (vs ++ .object (ps ++ (name, v) :: qs) :: ws)) :: ns))

theorem docTypeName_not_mem_names (d : DocType) : Record.docTypeName ∉ d.names := by
  cases d <;> decide

theorem docTypeName_not_mem_blankNames (d : DocType) : Record.docTypeName ∉ d.blankNames := by
  cases d <;> decide

end DocType

namespace Record

def ofTree (d : DocType) (v : Json) : Except Malformed Record := do
  checkDocType d v.canonical
  (ofParts d v.canonical).mapError .misfit

theorem ofPayload_eq_ofTree {p : String} {v : Json} (h : Json.parse? p = some v) (d : DocType) :
    ofPayload d p = ofTree d v := by
  rw [ofPayload, h]
  rfl

theorem ofParts_eq_of_saysSame {d : DocType} {t u : Table Json}
    (h : ∀ name ∈ d.names, SaysSame d.blankNames name (t.find? name) (u.find? name)) :
    ofParts d (.object t.rows) = ofParts d (.object u.rows) := by
  cases d with
  | agency => exact congrArg (Except.map agency) (Agency.determined_layout.ofMembers_eq h)
  | tag => exact congrArg (Except.map tag) (Tag.determined_layout.ofMembers_eq h)
  | charge => exact congrArg (Except.map charge) (Charge.determined_layout.ofMembers_eq h)
  | correction =>
    exact congrArg (Except.map correction) (Correction.determined_layout.ofMembers_eq h)
  | reconciliation =>
    exact congrArg (Except.map reconciliation) (Reconciliation.determined_layout.ofMembers_eq h)
  | acknowledgement =>
    exact congrArg (Except.map acknowledgement) (Acknowledgement.determined_layout.ofMembers_eq h)
  | settlement =>
    exact congrArg (Except.map settlement) (Settlement.determined_layout.ofMembers_eq h)

section Objects

variable {d : DocType} {ms ns : Json.Members}

theorem ofTree_object (d : DocType) (ms : Json.Members) :
    ofTree d (.object ms) = (do
      checkDocType d (.object (Json.table ms).rows)
      (ofParts d (.object (Json.table ms).rows)).mapError .misfit) := by
  rw [ofTree, Json.canonical_object]
  rfl

theorem checkDocType_of_not_mem (h : docTypeName ∉ ms.map Prod.fst) :
    checkDocType d (.object (Json.table ms).rows) = .ok () := by
  have hfind : (Json.table ms).rows.lookup docTypeName = none := Json.find?_table_of_not_mem h
  rw [checkDocType, hfind]

theorem lookup_docType (v : Json) (h : docTypeName ∉ ns.map Prod.fst) :
    (Json.table (ms ++ (docTypeName, v) :: ns)).rows.lookup docTypeName = some v.canonical :=
  Json.find?_table_member v h

theorem checkDocType_told (h : docTypeName ∉ ns.map Prod.fst) :
    checkDocType d (.object (Json.table (ms ++ (docTypeName, .string d.wire) :: ns)).rows)
      = .ok () := by
  simp [checkDocType, lookup_docType _ h, Json.canonical]

theorem checkDocType_other {v : Json} (h : docTypeName ∉ ns.map Prod.fst)
    (hv : v ≠ .string d.wire) :
    checkDocType d (.object (Json.table (ms ++ (docTypeName, v) :: ns)).rows)
      = .error (.otherDocType d v.canonical) := by
  rw [checkDocType, lookup_docType v h]
  cases v with
  | string s =>
    have hs : s ≠ d.wire := fun e => hv (congrArg Json.string e)
    simp [Json.canonical, hs]
  | _ => simp [Json.canonical]

theorem ofTree_eq_of_saysSame
    (hkind : (Json.table ms).find? docTypeName = (Json.table ns).find? docTypeName)
    (hsame : ∀ name ∈ d.names, SaysSame d.blankNames name ((Json.table ms).find? name)
      ((Json.table ns).find? name)) : ofTree d (.object ms) = ofTree d (.object ns) := by
  have hcheck : checkDocType d (.object (Json.table ms).rows)
      = checkDocType d (.object (Json.table ns).rows) := by
    have hlookup : (Json.table ms).rows.lookup docTypeName
        = (Json.table ns).rows.lookup docTypeName := hkind
    rw [checkDocType, checkDocType, hlookup]
  rw [ofTree_object, ofTree_object, hcheck, ofParts_eq_of_saysSame hsame]

end Objects

end Record

namespace DocType

variable {d : DocType} {v w : Json}

/-- One rewording changes nothing of what is read, the fault included. -/
theorem Rewording.ofTree_eq (h : d.Rewording v w) : Record.ofTree d v = Record.ofTree d w := by
  cases h with
  | order h => rw [Record.ofTree, Record.ofTree, h.canonical_eq]
  | @unknown name hname hother ms ns v =>
    refine Record.ofTree_eq_of_saysSame (Json.find?_table_of_ne v hother.symm).symm ?_
    intro other hmem
    have hne : other ≠ name := fun e => hname (e ▸ hmem)
    rw [Json.find?_table_of_ne v hne]
    exact .same _
  | told ms ns habsent =>
    have hafter : Record.docTypeName ∉ ns.map Prod.fst := fun hmem =>
      habsent (by rw [List.map_append]; exact List.mem_append_right _ hmem)
    rw [Record.ofTree_object, Record.ofTree_object, Record.checkDocType_of_not_mem habsent,
      Record.checkDocType_told hafter]
    -- no layout has a column for the kind, so that the rest is read without it
    refine congrArg (Except.mapError Malformed.misfit) (Record.ofParts_eq_of_saysSame ?_)
    intro other hmem
    have hne : other ≠ Record.docTypeName := fun e => d.docTypeName_not_mem_names (e ▸ hmem)
    rw [Json.find?_table_of_ne _ hne]
    exact .same _
  | @blank name hname ms ns habsent v hv =>
    have hother : name ≠ Record.docTypeName := fun e =>
      d.docTypeName_not_mem_blankNames (e ▸ hname)
    exact Record.ofTree_eq_of_saysSame (Json.find?_table_of_ne v hother.symm).symm
      fun _ _ => Json.saysSame_of_blank hname habsent hv
  | @plan name hname ps qs habsent v hv vs ws ms ns honce =>
    have hkind : Record.docTypeName ≠ "discountPlans" := by decide
    refine Record.ofTree_eq_of_saysSame ?_ fun other _ => ?_
    · rw [Json.find?_table_of_ne _ hkind, Json.find?_table_of_ne _ hkind]
    · by_cases hplans : other = "discountPlans"
      · subst hplans
        rw [Json.find?_table_member _ honce, Json.find?_table_member _ honce]
        -- the plans are compared by what they are read as, since the two arrays differ
        refine .plans rfl ?_
        rw [Json.canonical_array, Json.canonical_array, List.map_append, List.map_append,
          List.map_cons, List.map_cons]
        exact DiscountPlan.readAll_congr (DiscountPlan.ofJson_blank hname habsent hv) _ _
      · rw [Json.find?_table_of_ne _ hplans, Json.find?_table_of_ne _ hplans]
        exact .same _

theorem ofTree_eq_of_rewordings (h : Relation.EqvGen d.Rewording v w) :
    Record.ofTree d v = Record.ofTree d w := by
  induction h with
  | rel v w h => exact h.ofTree_eq
  | refl v => rfl
  | symm v w _ ih => exact ih.symm
  | trans v w x _ _ ih ih' => exact ih.trans ih'

end DocType

namespace Record

/-- Payloads that differ by rewordings only are read alike, as one record or with one fault. A
payload that tells a kind is refused if it is not this kind, told by its exact name, whatever else
it says. -/
theorem payloads_reworded (d : DocType) :
    (∀ (p q : String) (v w : Json), Json.parse? p = some v → Json.parse? q = some w →
      Relation.EqvGen d.Rewording v w → ofPayload d p = ofPayload d q) ∧
    (∀ (p : String) (ms ns : Json.Members) (x : Json),
      Json.parse? p = some (.object (ms ++ (docTypeName, x) :: ns)) →
      docTypeName ∉ ns.map Prod.fst → x ≠ .string d.wire →
        ∃ m, ofPayload d p = .error m ∧ (House.Fault.malformed m).kind = "ParseError" ∧
          m.text = "expected docType '" ++ d.wire ++ "', found " ++ x.canonical.compact) := by
  refine ⟨?_, ?_⟩
  · intro p q v w hp hq h
    rw [ofPayload_eq_ofTree hp, ofPayload_eq_ofTree hq, DocType.ofTree_eq_of_rewordings h]
  · intro p ms ns x hp honce hx
    refine ⟨.otherDocType d x.canonical, ?_, rfl, ?_⟩
    · rw [ofPayload_eq_ofTree hp, ofTree_object, checkDocType_other honce hx]
      rfl
    · exact congrArg (fun v : Json => "expected docType '" ++ d.wire ++ "', found " ++ v.compact)
        (Json.canonical_canonical x)

def terseTag : Json :=
  .object [("tagAgencyID", .string "A"),
    ("discountPlans", .array [.object [("planID", .string "P")]])]

def datedPlans : Json := .array [.object [("planID", .string "P"), ("endDate", .string " ")]]

def wordyTag : Json :=
  .object [("docType", .string "tag"), ("note", .null), ("discountPlans", datedPlans),
    ("tagAgencyID", .string "A"), ("tagStatus", .null)]

def kindlessTag : Json := .object [("tagAgencyID", .string "A"), ("docType", .null)]

theorem rewordings_terseTag :
    Relation.EqvGen (DocType.Rewording .tag) terseTag wordyTag := by
  have hblank : ¬ (Json.string " ").IsTold := by simp [Json.IsTold, Text.allBlank, Text.isBlank]
  have hnull : ¬ Json.null.IsTold := id
  have hplan : DocType.Rewording .tag terseTag
      (.object [("tagAgencyID", .string "A"), ("discountPlans", datedPlans)]) :=
    .plan (by decide) [("planID", .string "P")] [] (by decide) hblank [] []
      [("tagAgencyID", .string "A")] [] (by decide)
  have horder : DocType.Rewording .tag
      (.object [("tagAgencyID", .string "A"), ("discountPlans", datedPlans)])
      (.object [("discountPlans", datedPlans), ("tagAgencyID", .string "A")]) :=
    .order (.members (by decide) (.swap ..))
  have hunknown : DocType.Rewording .tag
      (.object [("discountPlans", datedPlans), ("tagAgencyID", .string "A")])
      (.object [("note", .null), ("discountPlans", datedPlans), ("tagAgencyID", .string "A")]) :=
    .unknown (by decide) (by decide) [] _ .null
  have htold : DocType.Rewording .tag
      (.object [("note", .null), ("discountPlans", datedPlans), ("tagAgencyID", .string "A")])
      (.object [("docType", .string "tag"), ("note", .null), ("discountPlans", datedPlans),
        ("tagAgencyID", .string "A")]) :=
    .told [] _ (by simp [docTypeName])
  have hstatus : DocType.Rewording .tag
      (.object [("docType", .string "tag"), ("note", .null), ("discountPlans", datedPlans),
        ("tagAgencyID", .string "A")]) wordyTag :=
    .blank (by decide) [("docType", .string "tag"), ("note", .null), ("discountPlans", datedPlans),
      ("tagAgencyID", .string "A")] [] (by simp) hnull
  exact .trans _ _ _ (.rel _ _ hplan) (.trans _ _ _ (.rel _ _ horder)
    (.trans _ _ _ (.rel _ _ hunknown) (.trans _ _ _ (.rel _ _ htold) (.rel _ _ hstatus))))

theorem payloads_reworded_terseTag :
    ofPayload .tag terseTag.compact = ofPayload .tag wordyTag.compact ∧
      ∃ m, ofPayload .tag kindlessTag.compact = .error m ∧
        (House.Fault.malformed m).kind = "ParseError" ∧
        m.text = "expected docType 'tag', found " ++ Json.null.compact := by
  have hplanned : terseTag.Shallow Json.maxDepth := by
    simp [terseTag, Json.Shallow, Json.Within, Json.maxDepth]
  have hwordy : wordyTag.Shallow Json.maxDepth := by
    simp [wordyTag, datedPlans, Json.Shallow, Json.Within, Json.maxDepth]
  have hkindless : kindlessTag.Shallow Json.maxDepth := by
    simp [kindlessTag, Json.Shallow, Json.Within, Json.maxDepth]
  exact ⟨(payloads_reworded .tag).1 _ _ _ _ (Json.parse?_compact hplanned)
      (Json.parse?_compact hwordy) rewordings_terseTag,
    (payloads_reworded .tag).2 _ [("tagAgencyID", .string "A")] [] .null
      (Json.parse?_compact hkindless) (by decide) (by simp)⟩

end Record

end TollClearing
