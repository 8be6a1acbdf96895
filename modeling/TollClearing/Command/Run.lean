import TollClearing.Command.Disk
import TollClearing.Command.Line
import TollClearing.House.Operation
import TollClearing.House.Settings
import TollClearing.Ledger.Snapshot

/-!
Carrying out a command line. The ledger lies in a file as a snapshot: a call opens it, and saves it
again if the function may change it and has succeeded.
-/

set_option autoImplicit false

namespace TollClearing.Command

open House

inductive Failure where
  | rejected (f : Fault)
  | loading (path : String)
  | opening (path : String)
  | saving (path : String)
  deriving Repr

def Failure.text : Failure → String
  | .rejected f => f.kind ++ ": " ++ f.text
  | .loading path => "failed to load config " ++ path
  | .opening path => "failed to open ledger " ++ path
  | .saving path => "failed to save ledger " ++ path

structure Effect where
  shown : String
  saved : Option String
  deriving DecidableEq, Repr

def defaultState : String := "tollx-ledger.json"

def Options.statePath (o : Options) : String := o.state.getD defaultState

def Options.outputFormat (o : Options) : Format := o.format.getD .text

/-- The policy in the file that the line names. Without a file it is the standard one. -/
def loadPolicy (path : Option String) (file : Option Entry) : Except Failure Policy :=
  match path, file with
  | none, _ => .ok .standard
  | some _, none => .ok .standard
  | some path, some (.folder _) => .error (.loading path)
  | some path, some (.file bytes) =>
    match (String.fromUTF8? bytes).map Policy.ofText with
    | some (.ok p) => .ok p
    | _ => .error (.loading path)

/-- The ledger in a file. Without a file it is empty. -/
def openLedger (path : String) (file : Option Entry) : Except Failure Ledger :=
  match file with
  | none => .ok .empty
  | some (.folder _) => .error (.opening path)
  | some (.file bytes) =>
    match Ledger.ofSnapshot? bytes with
    | some l => .ok l
    | none => .error (.opening path)

def showAnswer (format : Format) (function : String) (answer : Json) : String :=
  match format with
  | .json => answer.compact
  | .text => "✓ " ++ function ++ "\n" ++ answer.canonical.pretty

def invoke (o : Options) (now : Instant) (name : String) (arguments : List String)
    (config state : Option Entry) : Except Failure Effect :=
  match Function.ofName? name with
  | none => .error (.rejected (.unknownFunction name))
  | some f => do
    let policy ← loadPolicy o.config config
    let l ← openLedger o.statePath state
    match (Transaction.invoke policy now name arguments).exec l with
    | (.error fault, _) => .error (.rejected fault)
    | (.ok outcome, l) =>
      let shown := showAnswer o.outputFormat name outcome.toJson
      if f.writes then
        match l.snapshot? with
        | some s => .ok ⟨shown, some s⟩
        | none => .error (.saving o.statePath)
      else .ok ⟨shown, none⟩

def padRight (width : Nat) (s : String) : String :=
  s ++ String.ofList (List.replicate (width - s.length) ' ')

def functionLine (f : Function) : String :=
  padRight 38 f.name ++ " " ++ padRight 6 (if f.writes then "write" else "read") ++ " "
    ++ String.intercalate " " f.parameters

def functionJson (f : Function) : Json :=
  .object
    [("name", .string f.name), ("params", .array (f.parameters.map .string)),
      ("write", .bool f.writes)]

def listFunctions : Format → String
  | .text => String.intercalate "\n" (Function.all.map functionLine)
  | .json => (Json.array (Function.all.map functionJson)).compact

def showPolicy (format : Format) (p : Policy) : String :=
  match format with
  | .text => p.settings
  | .json => p.toJson.compact

def run (now : Instant) (line : Line) (config state : Option Entry) : Except Failure Effect :=
  let o := line.options
  match line.action with
  | .invoke name arguments => invoke o now name arguments config state
  | .functions => .ok ⟨listFunctions o.outputFormat, none⟩
  | .policy => do
    let p ← loadPolicy o.config config
    .ok ⟨showPolicy o.outputFormat p, none⟩

/-- Carries out a line on a disk. A line that fails leaves all files as they were; folders can have
been made for the file that it could not save. -/
def runOn (now : Instant) (d : Disk) (line : Line) : Disk × Except Failure String :=
  let o := line.options
  match run now line (o.config.bind d.look) (d.look o.statePath) with
  | .error f => (d, .error f)
  | .ok ⟨shown, none⟩ => (d, .ok shown)
  | .ok ⟨shown, some snapshot⟩ =>
    match d.save o.statePath snapshot.toUTF8 with
    | (d, true) => (d, .ok shown)
    | (d, false) => (d, .error (.saving o.statePath))

end TollClearing.Command
