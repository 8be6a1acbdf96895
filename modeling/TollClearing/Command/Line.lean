/-!
The command line: options, a command and the command's arguments. Options may stand before or after
the command; after the command's name wins. What is wrong with a line is a `Usage`, and of two
faults the one that is met first counts, where an option's value is looked at only when the next
option or argument is taken or the line ends.
-/

set_option autoImplicit false

namespace TollClearing.Command

inductive Format where
  | text
  | json
  deriving DecidableEq, Repr

inductive Action where
  | invoke (function : String) (arguments : List String)
  | functions
  | policy
  deriving DecidableEq, Repr

structure Options where
  verbose : Bool
  format : Option Format
  state : Option String
  config : Option String
  deriving DecidableEq, Repr

namespace Options

def empty : Options := ⟨false, none, none, none⟩

/-- The options of a command go before those of the whole line. -/
def within (inner outer : Options) : Options where
  verbose := inner.verbose || outer.verbose
  format := inner.format <|> outer.format
  state := inner.state <|> outer.state
  config := inner.config <|> outer.config

end Options

structure Line where
  action : Action
  options : Options
  deriving DecidableEq, Repr

inductive Usage where
  | help
  | version
  | nothingGiven
  | noCommand
  | unknownCommand
  | unknownArgument
  | repeatedOption
  | badValue
  | unwantedValue
  | missingFunction
  deriving DecidableEq, Repr

inductive Setting where
  | format
  | state
  | config
  deriving DecidableEq, Repr

def Setting.ofName? (name : String) : Option Setting :=
  if name = "format" then some .format
  else if name = "state" then some .state
  else if name = "config" then some .config
  else none

def Format.ofName? (name : String) : Option Format :=
  if name = "text" then some .text else if name = "json" then some .json else none

namespace Options

def isGiven (o : Options) : Setting → Bool
  | .format => o.format.isSome
  | .state => o.state.isSome
  | .config => o.config.isSome

def give (o : Options) (s : Setting) (value : String) : Except Usage Options :=
  if o.isGiven s then .error .repeatedOption
  else
    match s with
    | .format =>
      match Format.ofName? value with
      | some f => .ok { o with format := some f }
      | none => .error .badValue
    | .state => if value = "" then .error .badValue else .ok { o with state := some value }
    | .config => if value = "" then .error .badValue else .ok { o with config := some value }

end Options

structure Pending where
  options : Options
  last : Option (Setting × Option String)
  deriving DecidableEq, Repr

namespace Pending

def empty : Pending := ⟨.empty, none⟩

def waits (p : Pending) : Bool :=
  match p.last with
  | some (_, none) => true
  | _ => false

def take (p : Pending) (value : String) : Pending :=
  { p with last := p.last.map fun (s, _) => (s, some value) }

def settle (p : Pending) : Except Usage Options :=
  match p.last with
  | none => .ok p.options
  | some (_, none) => .error .badValue
  | some (s, some value) => p.options.give s value

end Pending

inductive Word where
  /-- Two hyphens alone: no option follows. -/
  | escape
  | long (name : String) (value : Option String)
  | short (flags : List Char)
  | plain
  deriving DecidableEq, Repr

def Word.ofText (s : String) : Word :=
  match s.toList with
  | ['-', '-'] => .escape
  | '-' :: '-' :: cs =>
    let name := cs.takeWhile (· ≠ '=')
    match cs.drop name.length with
    | _ :: value => .long (String.ofList name) (some (String.ofList value))
    | [] => .long (String.ofList name) none
  | '-' :: c :: cs => .short (c :: cs)
  | _ => .plain

/-- What an option is looked up in: whether it stands before the command, and whether words that
look like an option but are none count as arguments. -/
structure Place where
  outer : Bool
  lenient : Bool

def takeFlag (o : Options) : Except Usage Pending :=
  if o.verbose then .error .repeatedOption else .ok ⟨{ o with verbose := true }, none⟩

/-- Takes a long option; none if the word is no option but an argument. -/
def takeLong (place : Place) (p : Pending) (name : String) (value : Option String) :
    Except Usage (Option Pending) :=
  let flag (outcome : Options → Except Usage Pending) : Except Usage (Option Pending) :=
    match value with
    | some _ => .error .unwantedValue
    | none => do .ok (some (← outcome (← p.settle)))
  if name = "verbose" then flag takeFlag
  else if name = "help" then flag fun _ => .error .help
  else if name = "version" && place.outer then flag fun _ => .error .version
  else
    match Setting.ofName? name, value with
    | some s, none => do .ok (some ⟨← p.settle, some (s, none)⟩)
    | some s, some v => do .ok (some ⟨← (← p.settle).give s v, none⟩)
    | none, _ => if place.lenient then .ok none else .error .unknownArgument

def isFlag (place : Place) (c : Char) : Bool := c = 'v' || c = 'h' || (place.outer && c = 'V')

def takeFlags (place : Place) (p : Pending) : List Char → Except Usage Pending
  | [] => .ok p
  | c :: cs =>
    if isFlag place c then do
      let o ← p.settle
      if c = 'v' then takeFlags place (← takeFlag o) cs
      else if c = 'h' then .error .help
      else .error .version
    else .error .unknownArgument

def takeShort (place : Place) (p : Pending) (flags : List Char) : Except Usage (Option Pending) :=
  if place.lenient && flags.any (!isFlag place ·) then .ok none
  else (takeFlags place p flags).map some

def takeOption (place : Place) (p : Pending) (word : String) : Except Usage (Option Pending) := do
  let option ← match Word.ofText word with
    | .long name value => takeLong place p name value
    | .short flags => takeShort place p flags
    | .escape => .ok none
    | .plain => .ok none
  match option with
  | some p => .ok (some p)
  | none => if p.waits then .ok (some (p.take word)) else .ok none

def readBare (escaped : Bool) (p : Pending) : List String → Except Usage Options
  | [] => p.settle
  | w :: ws =>
    if escaped then .error .unknownArgument
    else if Word.ofText w = .escape then readBare true p ws
    else do
      match ← takeOption ⟨false, false⟩ p w with
      | some p => readBare false p ws
      | none => .error .unknownArgument

/-- Reads the name of a function and its arguments. From the first argument on every word is one. -/
def readInvoke (escaped : Bool) (function : Option String) (p : Pending) :
    List String → Except Usage (String × List String × Options)
  | [] => do
    let o ← p.settle
    match function with
    | some f => .ok (f, [], o)
    | none => .error .missingFunction
  | w :: ws =>
    if !escaped && Word.ofText w = .escape then readInvoke true function p ws
    else do
      let option ← if escaped then .ok none else takeOption ⟨false, function.isSome⟩ p w
      match option, function with
      | some p, _ => readInvoke false function p ws
      | none, none => readInvoke escaped (some w) ⟨← p.settle, none⟩ ws
      | none, some f => do .ok (f, w :: ws, ← p.settle)

def commandNames : List String := ["invoke", "functions", "config", "help"]

def readHelp : List String → Usage
  | [] => .help
  | [name] => if commandNames.contains name then .help else .unknownCommand
  | _ => .unknownCommand

def readAction (name : String) (ws : List String) : Except Usage Line :=
  if name = "invoke" then do
    let (f, arguments, o) ← readInvoke false none .empty ws
    .ok ⟨.invoke f arguments, o⟩
  else if name = "functions" then do .ok ⟨.functions, ← readBare false .empty ws⟩
  else if name = "config" then do .ok ⟨.policy, ← readBare false .empty ws⟩
  else .error (readHelp ws)

/-- Reads the words before the command, then the command. The option that stands right before the
command is settled after it. -/
def readOuter (escaped : Bool) (p : Pending) : List String → Except Usage Line
  | [] => do
    let o ← p.settle
    if o = .empty then .error .nothingGiven else .error .noCommand
  | w :: ws =>
    if escaped then
      if commandNames.contains w then .error .unknownArgument else .error .unknownCommand
    else if !p.waits && commandNames.contains w then do
      let line ← readAction w ws
      let o ← p.settle
      .ok { line with options := line.options.within o }
    else if Word.ofText w = .escape then readOuter true p ws
    else do
      match ← takeOption ⟨true, false⟩ p w with
      | some p => readOuter false p ws
      | none => .error .unknownCommand

def Line.ofWords (ws : List String) : Except Usage Line := readOuter false .empty ws

end TollClearing.Command
