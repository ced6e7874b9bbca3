import Interaction.Text.Blank
import Mathlib.Data.List.TakeWhile

/-!
This module contains what trimming leaves of a text: white space is only taken off at the ends.
-/

namespace Interaction

namespace Text

def Unpadded (text : List Char) : Prop :=
  ∀ c, text.head? = some c ∨ text.getLast? = some c → isBlank c = false

variable {text : List Char}

theorem dropWhile_isBlank_of_head (h : ∀ c, text.head? = some c → isBlank c = false) :
    text.dropWhile isBlank = text := by
  cases text with
  | nil => rfl
  | cons c text => simp [h c rfl]

theorem trim_of_blank (blank : ∀ c ∈ text, isBlank c = true) : trim text = [] := by
  have start : trimStart text = [] := List.dropWhile_eq_nil_iff.2 blank
  unfold trim
  rw [start]
  rfl

theorem trim_eq_nil_iff : trim text = [] ↔ ∀ c ∈ text, isBlank c = true := by
  constructor
  . intro none
    unfold trim trimEnd at none
    rw [List.reverse_eq_nil_iff, List.dropWhile_eq_nil_iff] at none
    -- what does not begin with white space, and has nothing else, is empty
    have start : trimStart text = [] := by
      unfold trimStart at *
      by_contra rest
      have blank := none _ (List.mem_reverse.2 (List.head_mem rest))
      rw [List.head_dropWhile_not isBlank rest] at blank
      cases blank
    exact List.dropWhile_eq_nil_iff.1 start
  . exact trim_of_blank

theorem trimEnd_append_of_blank {white : List Char} (blank : ∀ c ∈ white, isBlank c = true)
    (text : List Char) : trimEnd (text ++ white) = trimEnd text := by
  unfold trimEnd
  rw [List.reverse_append, List.dropWhile_append_of_pos]
  intro c mem
  exact blank c (List.mem_reverse.1 mem)

theorem trim_append_of_blank {white : List Char} (blank : ∀ c ∈ white, isBlank c = true)
    (text : List Char) : trim (text ++ white) = trim text := by
  unfold trim trimStart
  rw [List.dropWhile_append]
  split
  . next empty =>
    rw [List.isEmpty_iff] at empty
    rw [empty, List.dropWhile_eq_nil_iff.2 blank]
  . exact trimEnd_append_of_blank blank _

theorem trim_of_unpadded (h : Unpadded text) : trim text = text := by
  have start : trimStart text = text := dropWhile_isBlank_of_head fun c eq => h c (.inl eq)
  have stop : text.reverse.dropWhile isBlank = text.reverse := by
    apply dropWhile_isBlank_of_head
    intro c eq
    rw [List.head?_reverse] at eq
    exact h c (.inr eq)
  unfold trim trimEnd
  rw [start, stop, List.reverse_reverse]

theorem trim_append_of_unpadded (h : Unpadded text) {white : List Char}
    (blank : ∀ c ∈ white, isBlank c = true) : trim (text ++ white) = text :=
  (trim_append_of_blank blank text).trans (trim_of_unpadded h)

theorem trimEnd_prefix (text : List Char) : trimEnd text <+: text := by
  have suffix := List.dropWhile_suffix isBlank (l := text.reverse)
  rwa [← List.reverse_prefix, List.reverse_reverse] at suffix

theorem isBlank_of_head?_dropWhile {c : Char} (h : (text.dropWhile isBlank).head? = some c) :
    isBlank c = false := by
  have stop := List.head?_dropWhile_not isBlank text
  rw [h] at stop
  simpa using stop

theorem unpadded_trim (text : List Char) : Unpadded (trim text) := by
  rintro c (head | last)
  . obtain ⟨rest, eq⟩ := trimEnd_prefix (trimStart text)
    apply isBlank_of_head?_dropWhile
    change (trimStart text).head? = some c
    rw [← eq, List.head?_append]
    exact Option.or_eq_some_iff.2 (.inl head)
  . unfold trim trimEnd at last
    rw [List.getLast?_reverse] at last
    exact isBlank_of_head?_dropWhile last

end Text

end Interaction
