import TollClearing.Record.Column

/-!
Acknowledgements: the answer to a batch that one agency submitted to another.
-/

set_option autoImplicit false

namespace TollClearing

structure Acknowledgement where
  id : String
  submissionType : String
  submission : String
  sender : String
  receiver : String
  returnCode : String
  message : String
  records : UInt32
  submittedAt : Option Instant
  createdAt : Option Instant
  updatedAt : Option Instant
  deriving DecidableEq, Repr

namespace Acknowledgement

open Column Layout

def layout : Layout Acknowledgement Acknowledgement :=
  mk <$> column "acknowledgementID" text id
    <*> column "submissionType" text submissionType
    <*> column "submissionID" text submission
    <*> column "fromAgencyID" text sender
    <*> column "toAgencyID" text receiver
    <*> column "returnCode" text returnCode
    <*> column "returnMessage" optionalText message
    <*> column "recordCount" (plain Scalar.count 0) records
    <*> column "submissionDateTime" (blank Scalar.instant) submittedAt
    <*> column "createdAt" stamp createdAt
    <*> column "updatedAt" stamp updatedAt

end Acknowledgement

end TollClearing
