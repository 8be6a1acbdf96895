/-!
Values of a settings file in the TOML format. A table remembers how it came about, for that
decides what may still be added to it.
-/

set_option autoImplicit false

namespace TollClearing

namespace Toml

/-- How a table came about: it stands between braces, it has a header of its own, a header below it
names it, or a dotted key does. -/
inductive Origin where
  | braces
  | header
  | implied
  | dotted
  deriving DecidableEq, Repr

end Toml

/-- Numbers with a fraction and times are kept as they are written. -/
inductive Toml where
  | string (s : String)
  | integer (n : Int)
  | boolean (b : Bool)
  | real (text : String)
  | time (text : String)
  | array (items : List Toml)
  | table (origin : Toml.Origin) (rows : List (String × Toml))
  | tables (elements : List (List (String × Toml)))
  deriving Repr, Inhabited

namespace Toml

abbrev Rows := List (String × Toml)

def setRow (name : String) (v : Toml) : Rows → Rows
  | [] => [(name, v)]
  | row :: rows => if row.1 = name then (name, v) :: rows else row :: setRow name v rows

def changeLast {α : Type} (f : α → Option α) : List α → Option (List α)
  | [] => none
  | [a] => (f a).map fun a => [a]
  | a :: as => (changeLast f as).map (a :: ·)

/-- Gives the dotted key `path` followed by `name` a value. A key is given once; the tables on its
path are those that dotted keys made, or tables above the last one that headers imply. -/
def assign (takes : Bool) (path : List String) (name : String) (v : Toml) (rows : Rows) :
    Option Rows :=
  match path with
  | [] => if takes && (rows.lookup name).isNone then some (rows ++ [(name, v)]) else none
  | p :: path =>
    match rows.lookup p with
    | none => (assign true path name v []).map fun inner => rows ++ [(p, .table .dotted inner)]
    | some (.table .dotted inner) =>
      (assign true path name v inner).map fun inner => setRow p (.table .dotted inner) rows
    | some (.table .implied inner) =>
      (assign false path name v inner).map fun inner => setRow p (.table .implied inner) rows
    | some (.tables elements) =>
      (changeLast (assign false path name v) elements).map fun es => setRow p (.tables es) rows
    | some _ => none

/-- Changes what the header `path` followed by `name` names, in the last element of every array of
tables on the path. -/
def underHeader (f : Option Toml → Option Toml) (path : List String) (name : String) (rows : Rows) :
    Option Rows :=
  match path with
  | [] => (f (rows.lookup name)).map fun v => setRow name v rows
  | p :: path =>
    match rows.lookup p with
    | none => (underHeader f path name []).map fun inner => rows ++ [(p, .table .implied inner)]
    | some (.table .braces _) => none
    | some (.table origin inner) =>
      (underHeader f path name inner).map fun inner => setRow p (.table origin inner) rows
    | some (.tables elements) =>
      (changeLast (underHeader f path name) elements).map fun es => setRow p (.tables es) rows
    | some _ => none

/-- What the header of a table makes of what its name had: a table has one header. -/
def openTable : Option Toml → Option Toml
  | none => some (.table .header [])
  | some (.table .implied rows) => some (.table .header rows)
  | some _ => none

def openElement : Option Toml → Option Toml
  | none => some (.tables [[]])
  | some (.tables elements) => some (.tables (elements ++ [[]]))
  | some _ => none

def inOpened (f : Rows → Option Rows) : Option Toml → Option Toml
  | some (.table origin rows) => (f rows).map fun rows => .table origin rows
  | some (.tables elements) => (changeLast f elements).map .tables
  | _ => none

end Toml

end TollClearing
