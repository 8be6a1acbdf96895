import TollClearing.Code.Exchange
import TollClearing.Code.Status
import TollClearing.Record.Column

/-!
Agencies: the members of the exchange.
-/

set_option autoImplicit false

namespace TollClearing

structure Agency where
  id : String
  name : String
  consortium : String
  state : String
  role : Option AgencyRole
  status : Option AgencyStatus
  createdAt : Option Instant
  updatedAt : Option Instant
  deriving DecidableEq, Repr

namespace Agency

open Column Layout

def layout : Layout Agency Agency :=
  mk <$> column "agencyID" text id
    <*> column "name" text name
    <*> column "consortiumID" text consortium
    <*> column "state" text state
    <*> column "role" (blank Scalar.code) role
    <*> column "status" (blank Scalar.code) status
    <*> column "createdAt" stamp createdAt
    <*> column "updatedAt" stamp updatedAt

def isActive (a : Agency) : Bool := a.status = some .active

end Agency

end TollClearing
