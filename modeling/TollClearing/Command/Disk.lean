import TollClearing.Command.Folder

/-!
What paths lead to. The parts of a path are followed from left to right, each from a folder that is
there: an empty part and a point stay in it, two points lead to the folder above, and a name leads
to the entry of that name. Before a file is saved the folders that its path goes through are made,
and those stay if the file itself cannot be written.
-/

set_option autoImplicit false

namespace TollClearing.Command

/-- A folder that holds all others, and the location in it where a path starts that has no slash in
front. -/
structure Disk where
  root : Entry
  here : List String

inductive Obstacle where
  | absent
  /-- A file is in the way of a folder, or a name or a path is none. -/
  | barred
  deriving DecidableEq, Repr

namespace Disk

/-- What an entry can be called: 255 bytes at most. -/
def isName (part : String) : Bool :=
  part ≠ "" && part ≠ "." && part ≠ ".." && part.utf8ByteSize ≤ 255

/-- What a path can be: less than 4096 bytes, and no zero among them. -/
def isPath (path : String) : Bool :=
  path.utf8ByteSize < 4096 && !path.toList.contains '\x00'

def parts (path : String) : List String := path.splitOn "/"

def start (d : Disk) (parts : List String) : List String :=
  match parts with
  | "" :: _ => []
  | _ => d.here

def rows (d : Disk) (location : List String) : Except Obstacle (List (String × Entry)) :=
  match d.root.find? location with
  | some (.folder rows) => .ok rows
  | some (.file _) => .error .barred
  | none => .error .absent

def walk (d : Disk) : List String → List String → Except Obstacle (List String)
  | location, [] => .ok location
  | location, part :: parts => do
    let rows ← d.rows location
    if part = "" ∨ part = "." then walk d location parts
    else if part = ".." then walk d location.dropLast parts
    else if !isName part then .error .barred
    else if (rows.lookup part).isSome then walk d (location ++ [part]) parts
    else .error .absent

def look (d : Disk) (path : String) : Option Entry :=
  let parts := parts path
  if path = "" || !isPath path then none
  else
    match d.walk (d.start parts) parts with
    | .ok location => d.root.find? location
    | .error _ => none

def makeFolder (d : Disk) (before : List String) (part : String) : Except Obstacle Disk :=
  if !isPath (String.intercalate "/" (before ++ [part])) then .error .barred
  else do
    let location ← d.walk (d.start before) before
    let rows ← d.rows location
    if part = "" ∨ part = "." ∨ part = ".." then .ok d
    else if !isName part then .error .barred
    else
      match rows.lookup part with
      | some (.folder _) => .ok d
      | some (.file _) => .error .barred
      | none => .ok { d with root := Entry.put (.folder []) (location ++ [part]) d.root }

/-- Makes the folder that a path leads to, its last part first in the list, and those on the way
that are absent. The disk that results, and whether the folder is there. -/
def makeFolders (d : Disk) : List String → Disk × Bool
  | [] => (d, true)
  | part :: before =>
    if part = "" ∨ part = "." then makeFolders d before
    else
      match d.makeFolder before.reverse part with
      | .ok d => (d, true)
      | .error .barred => (d, false)
      | .error .absent =>
        let (d, made) := makeFolders d before
        if made then
          match d.makeFolder before.reverse part with
          | .ok d => (d, true)
          | .error _ => (d, false)
        else (d, false)

/-- Writes a file in a folder that is there. No file is written in place of a folder. -/
def write (d : Disk) (path : String) (bytes : ByteArray) : Except Obstacle Disk :=
  let parts := parts path
  let name := parts.getLast?.getD ""
  if !isPath path || !isName name then .error .barred
  else do
    let location ← d.walk (d.start parts) parts.dropLast
    let rows ← d.rows location
    match rows.lookup name with
    | some (.folder _) => .error .barred
    | _ => .ok { d with root := Entry.put (.file bytes) (location ++ [name]) d.root }

/-- The parts of a path before its last one, which is the last that is neither empty nor a point.
They stand in the reverse order. -/
def above (parts : List String) : List String :=
  (parts.reverse.dropWhile fun part => part = "" || part = ".").tail

/-- Saves a file. The disk that results, and whether the file has been written. -/
def save (d : Disk) (path : String) (bytes : ByteArray) : Disk × Bool :=
  let (d, made) := d.makeFolders (above (parts path))
  if made then
    match d.write path bytes with
    | .ok d => (d, true)
    | .error _ => (d, false)
  else (d, false)

end Disk

end TollClearing.Command
