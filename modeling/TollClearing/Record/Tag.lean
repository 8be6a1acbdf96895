import TollClearing.Code.Status
import TollClearing.Record.Column

/-!
Tags, with the plate of their vehicle and the discount plans they are entitled to.
-/

set_option autoImplicit false

namespace TollClearing

structure Plate where
  country : String
  state : String
  number : String
  type : String
  deriving DecidableEq, Repr

namespace Plate

open Column Layout

def layout : Layout Plate Plate :=
  mk <$> column "country" text country
    <*> column "state" text state
    <*> column "number" text number
    <*> column "plateType" optionalText type

def scalar : Scalar Plate := ⟨layout.ofJson, fun p => .object (layout.write p)⟩

end Plate

structure DiscountPlan where
  id : String
  start : Option Date
  stop : Option Date
  deriving DecidableEq, Repr

namespace DiscountPlan

open Column Layout

def layout : Layout DiscountPlan DiscountPlan :=
  mk <$> column "planID" text id
    <*> column "startDate" (blank Scalar.date) start
    <*> column "endDate" (optionalBlank Scalar.date) stop

/-- Whether the plan has started by `day` and not ended before it. -/
def isActiveOn (p : DiscountPlan) (day : Date) : Bool :=
  (match p.start with
    | some start => start ≤ day
    | none => false) &&
  match p.stop with
    | some stop => day ≤ stop
    | none => true

def readAll : List Json → Except Misfit (List DiscountPlan)
  | [] => .ok []
  | v :: vs => do .ok ((← layout.ofJson v) :: (← readAll vs))

def list : Column (List DiscountPlan) where
  read
    | .array vs => readAll vs
    | _ => .error (.wrongValue "a list of plans")
  absent := []
  write ps :=
    if ps.isEmpty then none else some (.array (ps.map fun p => .object (layout.write p)))

end DiscountPlan

structure Tag where
  serial : String
  agency : String
  home : String
  account : String
  tagClass : UInt8
  status : Option TagStatus
  plate : Option Plate
  plans : List DiscountPlan
  createdAt : Option Instant
  updatedAt : Option Instant
  deriving DecidableEq, Repr

namespace Tag

open Column Layout

def layout : Layout Tag Tag :=
  mk <$> column "tagSerialNumber" text serial
    <*> column "tagAgencyID" text agency
    <*> column "homeAgencyID" text home
    <*> column "accountID" optionalText account
    <*> column "tagClass" (plain Scalar.byte 0) tagClass
    <*> column "tagStatus" (blank Scalar.code) status
    <*> column "plateInfo" (nullable Plate.scalar) plate
    <*> column "discountPlans" DiscountPlan.list plans
    <*> column "createdAt" stamp createdAt
    <*> column "updatedAt" stamp updatedAt

def activePlans (t : Tag) (day : Date) : List DiscountPlan := t.plans.filter (·.isActiveOn day)

end Tag

end TollClearing
