import TollClearing.House.Operation
import TollClearing.Ledger.Snapshot
import TollClearing.Toml.Reader
import TollClearing.House.Settings
import TollClearing.Command.Run
import TollClearing.Main
import TollClearing.Proofs.Json.Quoted
import TollClearing.Proofs.Json.RoundTrip
import TollClearing.Proofs.Json.Canonical
import TollClearing.Proofs.Calendar
import TollClearing.Proofs.Decimal.RoundTrip
import TollClearing.Proofs.Record.Layout
import TollClearing.Proofs.Record.Column
import TollClearing.Proofs.Record.Kinds
import TollClearing.Proofs.Record.Codec
import TollClearing.Proofs.Record.Selection
import TollClearing.Proofs.Except
import TollClearing.Proofs.Rule.Record
import TollClearing.Proofs.House.Step
import TollClearing.Proofs.House.Run
import TollClearing.Proofs.House.ReadBack
import TollClearing.Proofs.Ledger.Snapshot
import TollClearing.Proofs.Command.Disk
import TollClearing.Proofs.House.Alike
import TollClearing.Proofs.Command.Session
import TollClearing.Proofs.Decimal.Cents
import TollClearing.Proofs.Totals
import TollClearing.Proofs.House.Bill
import TollClearing.Proofs.Key
import TollClearing.Proofs.Record.Identity
import TollClearing.Proofs.House.Lookup
import TollClearing.Proofs.Record.Payload
import TollClearing.Proofs.House.Update
import TollClearing.Proofs.House.History
import TollClearing.Proofs.House.Listing
import TollClearing.Proofs.House.Numbering
import TollClearing.Proofs.Text.Utf8
import TollClearing.Proofs.House.Query
import TollClearing.Proofs.House.Faults
import TollClearing.Proofs.House.Reference
import TollClearing.Proofs.House.Resubmission
import TollClearing.Proofs.House.Once
import TollClearing.Proofs.House.Isolation
import TollClearing.Proofs.House.Recording
import TollClearing.Proofs.Command.Reload
import TollClearing.Proofs.Rule.Accounting
import TollClearing.Proofs.Tally
import TollClearing.Proofs.House.Creation
import TollClearing.Proofs.Ledger.Names
import TollClearing.Proofs.Rule.Charge
import TollClearing.Proofs.Rule.Plans
import TollClearing.Proofs.House.Relaxation
import TollClearing.Proofs.Record.Reading
import TollClearing.Proofs.Record.Rewording
import TollClearing.Proofs.Decimal.Places
