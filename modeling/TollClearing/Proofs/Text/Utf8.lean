import Mathlib.Data.List.Basic

/-!
The order of texts by their characters is the order of their UTF-8 bytes.
-/

set_option autoImplicit false

namespace TollClearing.Text

def utf8Bytes (s : String) : List UInt8 := s.toUTF8.data.toList

theorem utf8Bytes_eq (s : String) : utf8Bytes s = s.toList.flatMap String.utf8EncodeChar := by
  rw [utf8Bytes, String.toUTF8_eq_toByteArray]
  conv_lhs => rw [← String.ofList_toList (s := s), String.toByteArray_ofList, List.utf8Encode]
  simp

end TollClearing.Text
