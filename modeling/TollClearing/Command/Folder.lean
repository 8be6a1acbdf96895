/-!
Folders: files and folders by their names. A location is the list of names that leads to an entry
from the folder that holds all others.
-/

set_option autoImplicit false

namespace TollClearing.Command

inductive Entry where
  | file (bytes : ByteArray)
  | folder (rows : List (String × Entry))

namespace Entry

def find? : List String → Entry → Option Entry
  | [], e => some e
  | name :: location, .folder rows =>
    match rows.lookup name with
    | some e => find? location e
    | none => none
  | _ :: _, .file _ => none

def setRow (name : String) (e : Entry) : List (String × Entry) → List (String × Entry)
  | [] => [(name, e)]
  | row :: rows => if row.1 = name then (name, e) :: rows else row :: setRow name e rows

def put (e : Entry) : List String → Entry → Entry
  | [], _ => e
  | name :: location, .folder rows =>
    match location, rows.lookup name with
    | [], _ => .folder (setRow name e rows)
    | location, some inner => .folder (setRow name (put e location inner) rows)
    | _, none => .folder rows
  | _ :: _, .file bytes => .file bytes

end Entry

end TollClearing.Command
