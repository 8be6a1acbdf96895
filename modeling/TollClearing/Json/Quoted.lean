import TollClearing.Text.Digits

/-!
Quoted strings of a JSON text. Writing escapes the quote, the backslash and the control
characters below the blank; reading accepts every escape of the format, joins surrogate pairs
and refuses a lone surrogate.
-/

set_option autoImplicit false

namespace TollClearing.Json

open TollClearing.Text

def unit? (a b c d : Char) : Option Nat := do
  some ((((← hexValue? a) * 16 + (← hexValue? b)) * 16 + (← hexValue? c)) * 16 + (← hexValue? d))

def isHighSurrogate (n : Nat) : Bool := 0xD800 ≤ n && n < 0xDC00

def isLowSurrogate (n : Nat) : Bool := 0xDC00 ≤ n && n < 0xE000

def joinSurrogates (high low : Nat) : Char :=
  Char.ofNat (0x10000 + (high - 0xD800) * 0x400 + (low - 0xDC00))

def unescape? (c : Char) : Option Char :=
  if c = '"' ∨ c = '\\' ∨ c = '/' then some c
  else if c = 'b' then some '\x08'
  else if c = 'f' then some '\x0c'
  else if c = 'n' then some '\n'
  else if c = 'r' then some '\r'
  else if c = 't' then some '\t'
  else none

def escape (c : Char) : List Char :=
  if c = '"' then ['\\', '"']
  else if c = '\\' then ['\\', '\\']
  else if c = '\x08' then ['\\', 'b']
  else if c = '\x0c' then ['\\', 'f']
  else if c = '\n' then ['\\', 'n']
  else if c = '\r' then ['\\', 'r']
  else if c = '\t' then ['\\', 't']
  else if c.toNat < 0x20 then
    ['\\', 'u', '0', '0', hexDigit (c.toNat / 16), hexDigit (c.toNat % 16)]
  else [c]

def quote (s : String) : List Char := '"' :: s.toList.flatMap escape ++ ['"']

def readQuoted : List Char → Option (List Char × List Char)
  | [] => none
  | c :: s =>
    if c = '"' then some ([], s)
    else if c = '\\' then
      match s with
      | [] => none
      | e :: s =>
        if e = 'u' then
          match s with
          | a :: b :: c :: d :: s =>
            match unit? a b c d with
            | none => none
            | some n =>
              if isHighSurrogate n then
                match s with
                | '\\' :: 'u' :: a :: b :: c :: d :: s =>
                  match unit? a b c d with
                  | none => none
                  | some m =>
                    if isLowSurrogate m then
                      (readQuoted s).map fun (cs, rest) => (joinSurrogates n m :: cs, rest)
                    else none
                | _ => none
              else if isLowSurrogate n then none
              else (readQuoted s).map fun (cs, rest) => (Char.ofNat n :: cs, rest)
          | _ => none
        else
          match unescape? e with
          | none => none
          | some c => (readQuoted s).map fun (cs, rest) => (c :: cs, rest)
    else if c.toNat < 0x20 then none
    else (readQuoted s).map fun (cs, rest) => (c :: cs, rest)

def readString : List Char → Option (String × List Char)
  | '"' :: s => (readQuoted s).map fun (cs, rest) => (String.ofList cs, rest)
  | _ => none

/-- Passes over a string up to its closing quote, which it takes; surrogates need no partner. -/
def skipQuoted : List Char → Option (List Char)
  | [] => none
  | c :: s =>
    if c = '"' then some s
    else if c = '\\' then
      match s with
      | [] => none
      | e :: s =>
        if e = 'u' then
          match s with
          | a :: b :: c :: d :: s => if (unit? a b c d).isSome then skipQuoted s else none
          | _ => none
        else if (unescape? e).isSome then skipQuoted s
        else none
    else if c.toNat < 0x20 then none
    else skipQuoted s

def skipString : List Char → Option (Unit × List Char)
  | '"' :: s => (skipQuoted s).map fun rest => ((), rest)
  | _ => none

end TollClearing.Json
