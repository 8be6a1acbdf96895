import TollClearing.Record.Charge
import TollClearing.Record.Correction
import TollClearing.Rule.Violation

/-!
Totals of a period: what a home agency, the payor, owes an away agency, the payee, for the charges
whose exit falls in the period. The first day of the period is part of it and the last is not. Of
the corrections of a charge only the latest counts, and it counts with the change that it makes
to the net amount of the charge.
-/

set_option autoImplicit false

namespace TollClearing

structure Totals where
  payor : String
  payee : String
  start : Date
  stop : Date
  charges : UInt32
  corrections : UInt32
  gross : Decimal
  fee : Decimal
  correction : Decimal
  net : Decimal
  deriving DecidableEq, Repr

/-- Two agencies and the days of a bill: it starts on `start` and stops before `stop`. -/
structure Period where
  payor : String
  payee : String
  start : Date
  stop : Date
  deriving DecidableEq, Repr

/-- Whether a charge is billed: it is owed by the payor to the payee, its state makes it billable,
and its exit falls in the period. -/
def Period.bills (p : Period) (c : Charge) : Bool :=
  c.home = p.payor && c.away = p.payee &&
    (match c.status with
      | some status => status.isBillable
      | none => false) &&
    match c.exitTime with
    | some exit => p.start ≤ exit.date && exit.date < p.stop
    | none => false

namespace Totals

def checked (member : String) (sum : Option Decimal) : Except Violation Decimal :=
  match sum with
  | some a => .ok a
  | none => .error (.rejected member .unrepresentable)

def sumCharges (gross fee : Decimal) : List Charge → Except Violation (Decimal × Decimal)
  | [] => .ok (gross, fee)
  | c :: cs => do
    let gross ← checked "grossAmount" (gross.add? (c.amount.getD Decimal.zero))
    let fee ← checked "feeAmount" (fee.add? c.fee)
    sumCharges gross fee cs

/-- Of two corrections the one with the greater number, the first of equals. -/
def later (best : Option Correction) (c : Correction) : Option Correction :=
  match best with
  | none => some c
  | some b => if b.number < c.number then some c else some b

def latest? (id : String) (corrections : List Correction) : Option Correction :=
  (corrections.filter (·.charge = id)).foldl later none

def change? (charge : Charge) (c : Correction) : Option Decimal := do
  let corrected ← (c.amount.getD Decimal.zero).sub? c.fee
  let recorded ← (charge.amount.getD Decimal.zero).sub? charge.fee
  corrected.sub? recorded

def sumChanges (total : Decimal) : List (Charge × Correction) → Except Violation Decimal
  | [] => .ok total
  | (charge, c) :: rest => do
    let change ← checked "correctionAmount" (change? charge c)
    let total ← checked "correctionAmount" (total.add? change)
    sumChanges total rest

/-- Each charge that has been corrected with its latest correction, in ascending order of the
charges' names. Of charges with one name the last counts. -/
def corrected (charges : List Charge) (corrections : List Correction) :
    List (Charge × Correction) :=
  (Table.ofList (charges.map fun c => (c.id, c))).rows.filterMap fun (id, charge) =>
    (latest? id corrections).map fun c => (charge, c)

def ofPeriod (p : Period) (charges : List Charge) (corrections : List Correction) :
    Except Violation Totals := do
  let billed := charges.filter p.bills
  let (gross, fee) ← sumCharges Decimal.zero Decimal.zero billed
  let pairs := corrected billed corrections
  let correction ← sumChanges Decimal.zero pairs
  let net ← checked "netAmount" (do (← gross.sub? fee).add? correction)
  .ok
    { payor := p.payor, payee := p.payee, start := p.start, stop := p.stop
      -- a counter that is full goes on from zero
      charges := UInt32.ofNat billed.length, corrections := UInt32.ofNat pairs.length
      gross, fee, correction, net }

def toJson (t : Totals) : Json :=
  .object
    [("payorAgencyID", .string t.payor), ("payeeAgencyID", .string t.payee),
      ("periodStart", .string t.start.text), ("periodEnd", .string t.stop.text),
      ("chargeCount", .number (.whole t.charges.toNat)),
      ("correctionCount", .number (.whole t.corrections.toNat)),
      ("grossAmount", .string t.gross.text), ("feeAmount", .string t.fee.text),
      ("correctionAmount", .string t.correction.text), ("netAmount", .string t.net.text)]

end Totals

end TollClearing
