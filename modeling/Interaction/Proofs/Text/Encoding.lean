import Interaction.Text.Encoding
import Mathlib.Data.List.Count

/-!
This module contains the bytes of a text. They are decoded as the text, and a line feed is among
them only where the text has one, so that bytes are a text with a line feed after them if they are
one without it.
-/

namespace Interaction

namespace Text

def encode (text : String) : List UInt8 := text.toUTF8.data.toList

theorem decode?_encode (text : String) : decode? (encode text) = some text := by
  unfold decode? encode String.fromUTF8?
  rw [Array.toArray_toList, String.toUTF8_eq_toByteArray, dif_pos text.isValidUTF8]
  rfl

theorem decode?_eq_some_iff {bytes : List UInt8} {text : String} :
    decode? bytes = some text ↔ bytes = encode text := by
  constructor
  . intro decoded
    unfold decode? String.fromUTF8? at decoded
    split at decoded
    . cases decoded
      rfl
    . cases decoded
  . rintro rfl
    exact decode?_encode text

theorem encode_eq_flatMap (text : String) :
    encode text = text.toList.flatMap String.utf8EncodeChar := by
  unfold encode
  rw [String.toUTF8_eq_toByteArray, ← String.utf8Encode_toList, List.utf8Encode,
    List.toList_data_toByteArray]

theorem encode_append (s t : String) : encode (s ++ t) = encode s ++ encode t := by
  rw [encode_eq_flatMap, encode_eq_flatMap, encode_eq_flatMap, String.toList_append,
    List.flatMap_append]

theorem lineFeed_ne_ofNat {n : Nat} (low : 128 ≤ n) (high : n < 256) : 10 ≠ UInt8.ofNat n := by
  intro eq
  have value := congrArg UInt8.toNat eq
  rw [UInt8.toNat_ofNat', Nat.mod_eq_of_lt high] at value
  have ten : (10 : UInt8).toNat = 10 := rfl
  omega

theorem count_utf8EncodeChar (c : Char) :
    (String.utf8EncodeChar c).count 10 = if c = '\n' then 1 else 0 := by
  have feed : c = '\n' ↔ c.toNat = 10 := by
    rw [Char.ext_iff, ← UInt32.toNat_inj]
    rfl
  unfold String.utf8EncodeChar
  simp only
  split
  . next short =>
    have small : c.toNat < 256 := Nat.lt_of_le_of_lt short (by decide)
    have byte : UInt8.ofNat c.toNat = 10 ↔ c = '\n' := by
      rw [feed, ← UInt8.toNat_inj, UInt8.toNat_ofNat', Nat.mod_eq_of_lt small]
      rfl
    simp [List.count_singleton, byte]
  -- the bytes of all other characters are 128 or more
  . next long =>
    have other : c ≠ '\n' := by
      rw [Ne, feed]
      intro eq
      exact long (Nat.le_trans (Nat.le_of_eq eq) (by decide))
    rw [if_neg other]
    apply List.count_eq_zero_of_not_mem
    split
    . simp only [List.mem_cons, List.not_mem_nil, or_false, not_or]
      and_intros <;> exact lineFeed_ne_ofNat (by omega) (by omega)
    split
    . simp only [List.mem_cons, List.not_mem_nil, or_false, not_or]
      and_intros <;> exact lineFeed_ne_ofNat (by omega) (by omega)
    . simp only [List.mem_cons, List.not_mem_nil, or_false, not_or]
      and_intros <;> exact lineFeed_ne_ofNat (by omega) (by omega)

theorem count_encode (text : String) : (encode text).count 10 = text.toList.count '\n' := by
  rw [encode_eq_flatMap]
  induction text.toList with
  | nil => rfl
  | cons c rest ih =>
    rw [List.flatMap_cons, List.count_append, ih, count_utf8EncodeChar, List.count_cons,
      Nat.add_comm]
    simp

theorem eq_lineFeed_of_utf8EncodeChar {c : Char} {bytes : List UInt8}
    (eq : String.utf8EncodeChar c = bytes ++ [10]) : c = '\n' := by
  have count := count_utf8EncodeChar c
  by_contra other
  rw [eq, if_neg other, List.count_eq_zero] at count
  exact count (List.mem_append_right bytes (List.mem_singleton_self 10))

theorem decode?_append_lineFeed (bytes : List UInt8) :
    decode? (bytes ++ [10]) = (decode? bytes).map (· ++ "\n") := by
  match whole : decode? (bytes ++ [10]) with
  | none =>
    match decoded : decode? bytes with
    | none => rfl
    | some text =>
      rw [decode?_eq_some_iff] at decoded
      have fed : decode? (bytes ++ [10]) = some (text ++ "\n") := by
        rw [decode?_eq_some_iff, decoded, encode_append]
        rfl
      rw [whole] at fed
      cases fed
  | some text =>
    rw [decode?_eq_some_iff, encode_eq_flatMap] at whole
    rcases List.eq_nil_or_concat text.toList with empty | ⟨before, c, last⟩
    . simp [empty] at whole
    . rw [last, List.concat_eq_append, List.flatMap_append, List.flatMap_singleton] at whole
      have ends : ∃ init, String.utf8EncodeChar c = init ++ [10] := by
        rcases List.eq_nil_or_concat (String.utf8EncodeChar c) with none | ⟨init, byte, eq⟩
        . exact absurd none (String.utf8EncodeChar_ne_nil)
        . rw [eq, List.concat_eq_append, ← List.append_assoc] at whole
          rw [List.concat_eq_append, ← (List.append_inj' whole rfl).2] at eq
          exact ⟨init, eq⟩
      obtain ⟨init, eq⟩ := ends
      cases eq_lineFeed_of_utf8EncodeChar eq
      have same : bytes = encode (String.ofList before) := by
        rw [encode_eq_flatMap, String.toList_ofList]
        exact (List.append_inj' whole rfl).1
      rw [same, decode?_encode, Option.map_some, ← String.ofList_toList (s := text), last,
        List.concat_eq_append, String.ofList_append]

end Text

end Interaction
