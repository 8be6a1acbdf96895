import TollClearing.Json.Value
import TollClearing.Json.Quoted

/-!
Two ways to write a JSON value: `compact`, without any blank, and `pretty`, with every member and
every item on a line of its own, two blanks deeper than what holds it.
-/

set_option autoImplicit false

namespace TollClearing.Json

def boolText (b : Bool) : List Char := if b then "true".toList else "false".toList

mutual

def write : Json → List Char
  | .null => "null".toList
  | .bool b => boolText b
  | .number n => n.text
  | .string s => quote s
  | .array [] => ['[', ']']
  | .array (v :: vs) => '[' :: write v ++ writeItems vs
  | .object [] => ['\x7b', '\x7d']
  | .object ((name, v) :: ms) => '\x7b' :: quote name ++ ':' :: write v ++ writeMembers ms

def writeItems : List Json → List Char
  | [] => [']']
  | v :: vs => ',' :: write v ++ writeItems vs

def writeMembers : Members → List Char
  | [] => ['\x7d']
  | (name, v) :: ms => ',' :: quote name ++ ':' :: write v ++ writeMembers ms

end

def compact (v : Json) : String := String.ofList (write v)

def newLine (depth : Nat) : List Char := '\n' :: List.replicate (2 * depth) ' '

mutual

def layOut (depth : Nat) : Json → List Char
  | .array [] => ['[', ']']
  | .array (v :: vs) =>
    '[' :: newLine (depth + 1) ++ layOut (depth + 1) v ++ layOutItems depth vs
  | .object [] => ['\x7b', '\x7d']
  | .object ((name, v) :: ms) =>
    '\x7b' :: newLine (depth + 1) ++ quote name ++ ':' :: ' ' :: layOut (depth + 1) v
      ++ layOutMembers depth ms
  | .null => write .null
  | .bool b => write (.bool b)
  | .number n => write (.number n)
  | .string s => write (.string s)

def layOutItems (depth : Nat) : List Json → List Char
  | [] => newLine depth ++ [']']
  | v :: vs => ',' :: newLine (depth + 1) ++ layOut (depth + 1) v ++ layOutItems depth vs

def layOutMembers (depth : Nat) : Members → List Char
  | [] => newLine depth ++ ['\x7d']
  | (name, v) :: ms =>
    ',' :: newLine (depth + 1) ++ quote name ++ ':' :: ' ' :: layOut (depth + 1) v
      ++ layOutMembers depth ms

end

def pretty (v : Json) : String := String.ofList (layOut 0 v)

end TollClearing.Json
