import Std.Time.DateTime.Timestamp
import TollClearing.Command.Run

/-!
The program: it reads the two files that the command line names, carries out the line, saves the
ledger and prints what there is to show.
-/

set_option autoImplicit false

namespace TollClearing.Command

/-- What a path leads to. A path through a file, or one that is too long, leads nowhere. -/
def lookOnDisk (path : String) : IO (Option Entry) := do
  try
    return some (.file (← IO.FS.readBinFile path))
  catch
    | .noFileOrDirectory .. => return none
    | .inappropriateType _ 20 _ => return none
    | .invalidArgument .. => return none
    | _ => return some (.folder [])

def saveOnDisk (path snapshot : String) : IO Unit := do
  let parent := String.intercalate "/" (path.splitOn "/").dropLast
  if parent ≠ "" then IO.FS.createDirAll parent
  IO.FS.writeFile path snapshot

def Usage.text : Usage → String
  | .help =>
    "Usage: [--verbose] [--format text|json] [--state PATH] [--config PATH] "
      ++ "invoke FUNCTION [ARGUMENT...] | functions | config"
  | .version => "0.1.0"
  | .nothingGiven | .noCommand => "error: a command is needed: invoke, functions or config"
  | .unknownCommand => "error: unknown command"
  | .unknownArgument => "error: unexpected argument"
  | .repeatedOption => "error: an option is given twice"
  | .badValue => "error: an option has no value or an invalid one"
  | .unwantedValue => "error: an option takes no value"
  | .missingFunction => "error: the name of a function is needed"

def now : IO Instant := do
  let t ← Std.Time.Timestamp.now
  match Instant.ofNanoseconds? t.toNanosecondsSinceUnixEpoch.val with
  | some instant => return instant
  | none => throw (IO.userError "the clock shows no date")

def runOnDisk (line : Line) : IO (Except Failure String) := do
  let config ← match line.options.config with
    | some path => lookOnDisk path
    | none => pure none
  let path := line.options.statePath
  match run (← now) line config (← lookOnDisk path) with
  | .error f => return .error f
  | .ok e =>
    match e.saved with
    | none => return .ok e.shown
    | some snapshot =>
      try
        saveOnDisk path snapshot
        return .ok e.shown
      catch _ => return .error (.saving path)

end TollClearing.Command

open TollClearing.Command in
def main (words : List String) : IO UInt32 := do
  match Line.ofWords words with
  | .error usage =>
    if usage = .help ∨ usage = .version then
      IO.println usage.text
      return 0
    else
      IO.eprintln usage.text
      return 2
  | .ok line =>
    match ← runOnDisk line with
    | .ok shown =>
      IO.println shown
      return 0
    | .error failure =>
      IO.eprintln ("Error: " ++ failure.text)
      return 1
