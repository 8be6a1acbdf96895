import TollClearing.Toml.Scalar

/-!
Reading a settings file. It is a sequence of lines; each is empty, gives a key a value, or is a
header that says to which table the keys after it belong.
-/

set_option autoImplicit false

namespace TollClearing.Toml

open TollClearing.Text

/-- The deepest nesting of arrays and tables between braces, and the longest dotted key. -/
def maxDepth : Nat := 79

def skipLines (comment : Bool) : List Char → Option (List Char)
  | [] => some []
  | '\n' :: s => skipLines false s
  | '\r' :: '\n' :: s => skipLines false s
  | c :: s =>
    if comment then if isPlain c then skipLines true s else none
    else if isSpace c then skipLines false s
    else if c = '#' then skipLines true s
    else some (c :: s)

def endLine (s : List Char) : Option (List Char) :=
  let s := match skipSpace s with
    | '#' :: s => s.dropWhile isPlain
    | s => s
  match s with
  | [] => some []
  | '\n' :: s => some s
  | '\r' :: '\n' :: s => some s
  | _ => none

def isBare (c : Char) : Bool := c.isAlphanum || c = '_' || c = '-'

def readKeyPart (s : List Char) : Option (String × List Char) :=
  match s with
  | '"' :: s => (readBasic s).map fun (cs, rest) => (String.ofList cs, rest)
  | '\'' :: s => (readLiteral s).map fun (cs, rest) => (String.ofList cs, rest)
  | s =>
    let cs := s.takeWhile isBare
    if cs.isEmpty then none else some (String.ofList cs, s.drop cs.length)

/-- A key of at most `most` parts, with blanks around them, as its path and its last part. -/
def readKey : Nat → List Char → Option ((List String × String) × List Char)
  | 0, _ => none
  | most + 1, s => do
    let (part, s) ← readKeyPart (skipSpace s)
    match skipSpace s with
    | '.' :: s =>
      let ((path, name), s) ← readKey most s
      some ((part :: path, name), s)
    | s => some (([], part), s)

def readRow (value : List Char → Option (Toml × List Char)) (s : List Char) :
    Option ((List String × String × Toml) × List Char) := do
  let ((path, name), s) ← readKey maxDepth s
  match s with
  | '=' :: s =>
    let (v, s) ← value (skipSpace s)
    some ((path, name, v), s)
  | _ => none

/-- Items up to the closing bracket; a comma may follow the last one. -/
def readItems (value : List Char → Option (Toml × List Char)) :
    Nat → List Char → Option (List Toml × List Char)
  | 0, _ => none
  | count + 1, s => do
    match ← skipLines false s with
    | ']' :: s => some ([], s)
    | s =>
      let (v, s) ← value s
      match ← skipLines false s with
      | ']' :: s => some ([v], s)
      | ',' :: s =>
        let (vs, s) ← readItems value count s
        some (v :: vs, s)
      | _ => none

/-- Rows up to the closing brace, one at least, on one line. -/
def readRows (value : List Char → Option (Toml × List Char)) :
    Nat → Rows → List Char → Option (Rows × List Char)
  | 0, _, _ => none
  | count + 1, rows, s => do
    let ((path, name, v), s) ← readRow value s
    let rows ← assign true path name v rows
    match skipSpace s with
    | '\x7d' :: s => some (rows, s)
    | ',' :: s => readRows value count rows s
    | _ => none

def readScalar (s : List Char) : Option (Toml × List Char) :=
  match readString s with
  | some (cs, rest) => some (.string (String.ofList cs), rest)
  | none => readWord s

def readValue : Nat → List Char → Option (Toml × List Char)
  | 0, s => readScalar s
  | depth + 1, s =>
    match s with
    | '[' :: s =>
      (readItems (readValue depth) (s.length + 1) s).map fun (vs, rest) => (.array vs, rest)
    | '\x7b' :: s =>
      match skipSpace s with
      | '\x7d' :: s => some (.table .braces [], s)
      | s =>
        (readRows (readValue depth) (s.length + 1) [] s).map fun (rows, rest) =>
          (.table .braces rows, rest)
    | s => readScalar s

structure Draft where
  rows : Rows
  opened : Option (List String × String)

def Draft.assign (d : Draft) (path : List String) (name : String) (v : Toml) : Option Draft :=
  let set := Toml.assign true path name v
  match d.opened with
  | none => (set d.rows).map fun rows => { d with rows }
  | some (above, last) =>
    (underHeader (inOpened set) above last d.rows).map fun rows => { d with rows }

def Draft.enter (d : Draft) (f : Option Toml → Option Toml) (path : List String) (name : String) :
    Option Draft :=
  (underHeader f path name d.rows).map fun rows => ⟨rows, some (path, name)⟩

def readLine (d : Draft) (s : List Char) : Option (Draft × List Char) :=
  match s with
  | '[' :: '[' :: s => do
    let ((path, name), s) ← readKey maxDepth s
    match s with
    | ']' :: ']' :: s => some (← d.enter openElement path name, ← endLine s)
    | _ => none
  | '[' :: s => do
    let ((path, name), s) ← readKey maxDepth s
    match s with
    | ']' :: s => some (← d.enter openTable path name, ← endLine s)
    | _ => none
  | s => do
    let ((path, name, v), s) ← readRow (readValue maxDepth) s
    some (← d.assign path name v, ← endLine s)

def readLines : Nat → Draft → List Char → Option Rows
  | 0, _, _ => none
  | fuel + 1, d, s => do
    match ← skipLines false s with
    | [] => some d.rows
    | s =>
      let (d, s) ← readLine d s
      readLines fuel d s

/-- The rows of a settings file; a byte-order mark may stand in front. -/
def ofText? (s : String) : Option Rows :=
  let cs := match s.toList with
    | '\ufeff' :: cs => cs
    | cs => cs
  readLines (cs.length + 1) ⟨[], none⟩ cs

end TollClearing.Toml
