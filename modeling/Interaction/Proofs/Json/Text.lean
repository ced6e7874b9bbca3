import Interaction.Json.Basic

/-!
This module contains the proof that the compact text of a JSON value has no control character, and
thus no line feed.
-/

namespace Interaction

def Printable (text : List Char) : Prop := ∀ c ∈ text, 0x20 ≤ c.toNat

namespace Printable

variable {s t : List Char} {c : Char}

@[simp]
theorem nil : Printable [] := by simp [Printable]

@[simp]
theorem cons_iff : Printable (c :: t) ↔ 0x20 ≤ c.toNat ∧ Printable t := List.forall_mem_cons

@[simp]
theorem append_iff : Printable (s ++ t) ↔ Printable s ∧ Printable t := List.forall_mem_append

theorem of_subset (h : Printable t) (sub : s ⊆ t) : Printable s := fun c mem => h c (sub mem)

theorem not_mem_lineFeed (h : Printable t) : '\n' ∉ t := by
  intro mem
  have control := h '\n' mem
  revert control
  decide

theorem replicate {n : Nat} (h : 0x20 ≤ c.toNat) : Printable (List.replicate n c) := by
  intro c' mem
  rw [List.eq_of_mem_replicate mem]
  exact h

end Printable

theorem printable_toDigits (n : Nat) : Printable (Nat.toDigits 10 n) := by
  intro c mem
  have digit := Nat.isDigit_of_mem_toDigits (by decide) (by decide) mem
  simp only [Char.isDigit, Bool.and_eq_true, decide_eq_true_eq, ge_iff_le,
    UInt32.le_iff_toNat_le] at digit
  exact Nat.le_trans (by decide) digit.1

theorem printable_toString (n : Int) : Printable (toString n).toList := by
  cases n with
  | ofNat n => simpa [toString, Int.repr] using printable_toDigits n
  | negSucc n =>
    simpa [toString, Int.repr] using printable_toDigits (n + 1)

namespace Binary64

theorem printable_layOut {digits : List Char} (h : Printable digits) (exponent : Int) :
    Printable (layOut digits exponent) := by
  have zeros : ∀ n, Printable (List.replicate n '0') := fun n => .replicate (by decide)
  have taken : ∀ n, Printable (digits.take n) := fun n => h.of_subset (List.take_subset n digits)
  have dropped : ∀ n, Printable (digits.drop n) := fun n => h.of_subset (List.drop_subset n digits)
  have fraction : Printable (if digits.length = 1 then [] else '.' :: digits.drop 1) := by
    split
    . exact .nil
    . exact Printable.cons_iff.2 ⟨by decide, dropped 1⟩
  have power (n : Nat) : Printable (toString n).toList := by
    simpa using printable_toDigits n
  unfold layOut
  simp only
  split
  . simp [h, zeros]
  split
  . simp [taken, dropped]
  split
  . simp [h, zeros]
  . have sign : 0x20 ≤ (if 0 < (digits.length : Int) + exponent then '+' else '-').toNat := by
      split
      . decide
      . decide
    simp only [Printable.append_iff, Printable.cons_iff]
    exact ⟨⟨taken 1, fraction⟩, by decide, sign, power _⟩

theorem printable_toText (x : Binary64) : Printable x.toText.toList := by
  have digits (n : Nat) (exponent : Int) :
      Printable (withoutZeros (toString n).toList exponent).1 := by
    unfold withoutZeros
    apply Printable.of_subset _ (List.take_subset _ _)
    simpa using printable_toDigits n
  unfold toText
  simp only [String.toList_ofList]
  have magnitude : Printable
      (if x.isZero then ['0', '.', '0'] else
        layOut (withoutZeros (toString x.shortest.1).toList x.shortest.2).1
          (withoutZeros (toString x.shortest.1).toList x.shortest.2).2) := by
    split
    . simp
    . exact printable_layOut (digits _ _) _
  split
  . exact Printable.cons_iff.2 ⟨by decide, magnitude⟩
  . exact magnitude

end Binary64

namespace Json

theorem printable_controlDigits {n : Nat} (h : n < 0x20) : Printable (controlDigits n) := by
  have digits : ∀ d < 16, 0x20 ≤ (Nat.digitChar d).toNat := by decide
  have high := digits (n / 16) (by omega)
  have low := digits (n % 16) (by omega)
  simp [controlDigits, high, low]

theorem printable_escapeChar (c : Char) : Printable (escapeChar c) := by
  unfold escapeChar
  iterate 7 (split; . simp)
  split
  . next control => simp [printable_controlDigits control]
  . next printable => simpa using printable

theorem printable_stringText (text : String) : Printable (stringText text) := by
  unfold stringText
  simp only [Printable.cons_iff, Printable.append_iff]
  refine ⟨by decide, ?_, by decide, .nil⟩
  intro c mem
  obtain ⟨source, _, mem⟩ := List.mem_flatMap.1 mem
  exact printable_escapeChar source c mem

mutual

theorem printable_chars (j : Json) : Printable j.chars := by
  cases j with
  | null => simp [chars]
  | bool value => cases value <;> simp [chars]
  | number value =>
    cases value with
    | integer n => exact printable_toString n
    | binary x => exact x.printable_toText
  | string text => exact printable_stringText text
  | array items => simp [chars, printable_itemChars items]
  | object members => simp [chars, printable_memberChars members]

theorem printable_itemChars (items : List Json) : Printable (itemChars items) := by
  match items with
  | [] => exact .nil
  | [item] => exact printable_chars item
  | item :: second :: rest =>
    simp [itemChars, printable_chars item, printable_itemChars (second :: rest)]

theorem printable_memberChars (members : List (String × Json)) :
    Printable (memberChars members) := by
  match members with
  | [] => exact .nil
  | [(key, value)] => simp [memberChars, printable_stringText key, printable_chars value]
  | (key, value) :: second :: rest =>
    simp [memberChars, printable_stringText key, printable_chars value,
      printable_memberChars (second :: rest)]

end

theorem not_mem_render_lineFeed (j : Json) : '\n' ∉ j.render.toList := by
  unfold render
  rw [String.toList_ofList]
  exact (printable_chars j).not_mem_lineFeed

end Json

end Interaction
