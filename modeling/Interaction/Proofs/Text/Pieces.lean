import Interaction.Proofs.Text.Blank
import Mathlib.Data.List.Basic

/-!
This module contains what cutting a text at a separator gives: the pieces that make up the text with
separators between them. White space at the ends of the text is white space at the ends of pieces.
-/

namespace Interaction

namespace Text

variable {separator : Char} {text piece front back : List Char} {pieces others : List (List Char)}

def joined (separator : Char) : List (List Char) → List Char
  | [] => []
  | [piece] => piece
  | piece :: others => piece ++ separator :: joined separator others

theorem joined_cons (ne : others ≠ []) :
    joined separator (piece :: others) = piece ++ separator :: joined separator others := by
  cases others with
  | nil => exact absurd rfl ne
  | cons => rfl

theorem splitAt_ne_nil (separator : Char) (text : List Char) : splitAt separator text ≠ [] := by
  cases text with
  | nil => exact List.cons_ne_nil _ _
  | cons c text =>
    rw [splitAt]
    split
    . exact List.cons_ne_nil _ _
    . split <;> exact List.cons_ne_nil _ _

theorem splitAt_cons_of_ne {c : Char} (ne : c ≠ separator)
    (h : splitAt separator text = piece :: others) :
    splitAt separator (c :: text) = (c :: piece) :: others := by
  rw [splitAt, if_neg ne, h]

theorem joined_splitAt (separator : Char) (text : List Char) :
    joined separator (splitAt separator text) = text := by
  induction text with
  | nil => rfl
  | cons c text ih =>
    by_cases same : c = separator
    . rw [splitAt, if_pos same, joined_cons (splitAt_ne_nil _ _), ih, same]
      rfl
    . obtain ⟨piece, others, eq⟩ := List.exists_cons_of_ne_nil (splitAt_ne_nil separator text)
      rw [splitAt_cons_of_ne same eq]
      rw [eq] at ih
      cases others with
      | nil => exact congrArg (c :: ·) ih
      | cons => exact congrArg (c :: ·) ih

theorem splitAt_of_notMem (h : separator ∉ piece) : splitAt separator piece = [piece] := by
  induction piece with
  | nil => rfl
  | cons c piece ih =>
    rw [List.mem_cons, not_or] at h
    exact splitAt_cons_of_ne (Ne.symm h.1) (ih h.2)

theorem splitAt_append (h : separator ∉ piece) (text : List Char) :
    splitAt separator (piece ++ separator :: text) = piece :: splitAt separator text := by
  induction piece with
  | nil => rw [List.nil_append, splitAt, if_pos rfl]
  | cons c piece ih =>
    rw [List.mem_cons, not_or] at h
    exact splitAt_cons_of_ne (Ne.symm h.1) (ih h.2)

theorem notMem_of_mem_splitAt (h : piece ∈ splitAt separator text) : separator ∉ piece := by
  induction text generalizing piece with
  | nil =>
    rw [List.mem_singleton.1 h]
    exact List.not_mem_nil
  | cons c text ih =>
    by_cases same : c = separator
    . rw [splitAt, if_pos same] at h
      rcases List.mem_cons.1 h with rfl | h
      . exact List.not_mem_nil
      . exact ih h
    . obtain ⟨first, others, eq⟩ := List.exists_cons_of_ne_nil (splitAt_ne_nil separator text)
      rw [eq] at ih
      rw [splitAt_cons_of_ne same eq] at h
      rcases List.mem_cons.1 h with rfl | h
      . rw [List.mem_cons, not_or]
        exact ⟨Ne.symm same, ih List.mem_cons_self⟩
      . exact ih (List.mem_cons_of_mem _ h)

theorem splitAt_joined (ne : pieces ≠ []) (h : ∀ piece ∈ pieces, separator ∉ piece) :
    splitAt separator (joined separator pieces) = pieces := by
  induction pieces with
  | nil => exact absurd rfl ne
  | cons piece others ih =>
    have first := h piece List.mem_cons_self
    match others with
    | [] => exact splitAt_of_notMem first
    | other :: others =>
      rw [joined_cons (List.cons_ne_nil _ _), splitAt_append first,
        ih (List.cons_ne_nil _ _) fun piece mem => h piece (List.mem_cons_of_mem _ mem)]

theorem splitAt_eq_iff : splitAt separator text = pieces ↔
    pieces ≠ [] ∧ (∀ piece ∈ pieces, separator ∉ piece) ∧ text = joined separator pieces := by
  constructor
  . rintro rfl
    exact ⟨splitAt_ne_nil _ _, fun _ => notMem_of_mem_splitAt, (joined_splitAt _ _).symm⟩
  . rintro ⟨ne, apart, rfl⟩
    exact splitAt_joined ne apart

theorem joined_append_singleton (others : List (List Char)) (piece back : List Char) :
    joined separator (others ++ [piece ++ back]) =
      joined separator (others ++ [piece]) ++ back := by
  induction others with
  | nil => rfl
  | cons other others ih =>
    rw [List.cons_append, List.cons_append, joined_cons (by simp), joined_cons (by simp), ih,
      List.append_assoc, List.cons_append]

theorem splitAt_append_of_notMem (h : splitAt separator text = others ++ [piece])
    (apart : separator ∉ back) : splitAt separator (text ++ back) = others ++ [piece ++ back] := by
  rw [splitAt_eq_iff] at h ⊢
  obtain ⟨_, notMem, rfl⟩ := h
  refine ⟨by simp, ?_, (joined_append_singleton others piece back).symm⟩
  simp only [List.mem_append, List.mem_singleton] at notMem ⊢
  rintro _ (mem | rfl)
  . exact notMem _ (.inl mem)
  . rw [List.mem_append, not_or]
    exact ⟨notMem piece (.inr rfl), apart⟩

theorem append_splitAt_of_notMem (apart : separator ∉ front)
    (h : splitAt separator text = piece :: others) :
    splitAt separator (front ++ text) = (front ++ piece) :: others := by
  induction front with
  | nil => exact h
  | cons c front ih =>
    rw [List.mem_cons, not_or] at apart
    exact splitAt_cons_of_ne (Ne.symm apart.1) (ih apart.2)

theorem trim_blank_append {white : List Char} (blank : ∀ c ∈ white, isBlank c = true)
    (text : List Char) : trim (white ++ text) = trim text := by
  unfold trim trimStart
  rw [List.dropWhile_append_of_pos blank]

theorem exists_eq_trim (text : List Char) : ∃ front back, (∀ c ∈ front, isBlank c = true) ∧
    (∀ c ∈ back, isBlank c = true) ∧ text = front ++ (trim text ++ back) := by
  refine ⟨text.takeWhile isBlank, ((trimStart text).reverse.takeWhile isBlank).reverse,
    fun _ => List.mem_takeWhile_imp, ?_, ?_⟩
  . intro c mem
    exact List.mem_takeWhile_imp (List.mem_reverse.1 mem)
  . have rest := congrArg List.reverse
      (List.takeWhile_append_dropWhile (p := isBlank) (l := (trimStart text).reverse))
    rw [List.reverse_append, List.reverse_reverse] at rest
    unfold trim trimEnd
    rw [rest]
    exact List.takeWhile_append_dropWhile.symm

theorem map_trim_splitAt_trim (h : isBlank separator = false) (text : List Char) :
    (splitAt separator (trim text)).map trim = (splitAt separator text).map trim := by
  have apart {white : List Char} (blank : ∀ c ∈ white, isBlank c = true) : separator ∉ white := by
    intro mem
    rw [blank separator mem] at h
    cases h
  obtain ⟨front, back, blankFront, blankBack, eq⟩ := exists_eq_trim text
  generalize trim text = inner at eq
  subst eq
  have ne := splitAt_ne_nil separator inner
  have last := splitAt_append_of_notMem (List.dropLast_append_getLast ne).symm (apart blankBack)
  obtain ⟨piece, others, first⟩ :=
    List.exists_cons_of_ne_nil (splitAt_ne_nil separator (inner ++ back))
  rw [append_splitAt_of_notMem (apart blankFront) first, List.map_cons,
    trim_blank_append blankFront, ← List.map_cons, ← first, last, List.map_append,
    List.map_singleton, trim_append_of_blank blankBack, ← List.map_singleton, ← List.map_append,
    List.dropLast_append_getLast]

end Text

end Interaction
