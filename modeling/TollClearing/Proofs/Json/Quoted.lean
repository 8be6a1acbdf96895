import TollClearing.Json.Quoted
import TollClearing.Proofs.Text.Digits

/-!
A quoted string is read back as it was, whatever its characters.
-/

set_option autoImplicit false

namespace TollClearing.Json

open TollClearing.Text

theorem unit?_hexDigits {n : Nat} (h : n < 32) :
    unit? '0' '0' (hexDigit (n / 16)) (hexDigit (n % 16)) = some n := by
  have hzero : hexValue? '0' = some 0 := by decide
  have hhigh := hexValue?_hexDigit (n := n / 16) (by omega)
  have hlow := hexValue?_hexDigit (n := n % 16) (by omega)
  simp only [unit?, hzero, hhigh, hlow, bind, Option.bind]
  congr 1
  omega

theorem readQuoted_unescape {e c : Char} (he : e ≠ 'u') (hc : unescape? e = some c)
    (s : List Char) :
    readQuoted ('\\' :: e :: s) = (readQuoted s).map fun (cs, rest) => (c :: cs, rest) := by
  rw [readQuoted.eq_def]
  simp [he, hc]

theorem readQuoted_escape (c : Char) (s : List Char) :
    readQuoted (escape c ++ s) = (readQuoted s).map fun (cs, rest) => (c :: cs, rest) := by
  unfold escape
  -- the seven characters that have a letter or a mark of their own
  iterate 7
    split
    · subst_vars
      exact readQuoted_unescape (by decide) (by decide) s
  split
  · rename_i h
    have hunit := unit?_hexDigits (n := c.toNat) (by omega)
    have hhigh : isHighSurrogate c.toNat = false := by simp [isHighSurrogate]; omega
    have hlow : isLowSurrogate c.toNat = false := by simp [isLowSurrogate]; omega
    rw [List.cons_append, readQuoted.eq_def]
    simp [hunit, hhigh, hlow]
  · rename_i hquote hback _ _ _ _ _ hcontrol
    rw [List.cons_append, readQuoted.eq_def]
    simp [hquote, hback, hcontrol]

theorem readQuoted_flatMap_escape (s rest : List Char) :
    readQuoted (s.flatMap escape ++ '"' :: rest) = some (s, rest) := by
  induction s with
  | nil => rw [List.flatMap_nil, List.nil_append, readQuoted.eq_def]; simp
  | cons c s ih => rw [List.flatMap_cons, List.append_assoc, readQuoted_escape, ih]; rfl

theorem readString_quote (s : String) (rest : List Char) :
    readString (quote s ++ rest) = some (s, rest) := by
  simp [readString, quote, readQuoted_flatMap_escape]

end TollClearing.Json
