import Interaction.Message.Lines
import Interaction.Proofs.Json.Text

/-!
This module contains how a stream falls into lines, and what is read from these one by one.
-/

namespace Interaction

theorem Message.count_line (m : Message) : m.line.toList.count '\n' = 1 := by
  have none : m.toJson.render.toList.count '\n' = 0 :=
    List.count_eq_zero_of_not_mem m.toJson.not_mem_render_lineFeed
  unfold line
  rw [String.toList_append, List.count_append, none]
  rfl

namespace Lines

variable {before rest line : List UInt8} {lines : List (List UInt8)}

theorem map_snd_readFrom (number : Nat) (lines : List (List UInt8)) :
    (readFrom number lines).map (·.2) = lines.filterMap parse := by
  induction lines generalizing number with
  | nil => rfl
  | cons line lines ih =>
    simp only [readFrom]
    split
    . next blank => rw [ih, List.filterMap_cons_none blank]
    . next item found => rw [List.map_cons, ih, List.filterMap_cons_some found]

theorem map_snd_read (bytes : List UInt8) :
    (read bytes).map (·.2) = (cut bytes).filterMap parse :=
  map_snd_readFrom 0 (cut bytes)

def Boundary (before : List UInt8) : Prop := before = [] ∨ before.getLast? = some 10

theorem cut_append (boundary : Boundary before) (rest : List UInt8) :
    cut (before ++ rest) = cut before ++ cut rest := by
  induction before with
  | nil => rfl
  | cons byte before ih =>
    simp only [List.cons_append, cut]
    cases before with
    | nil =>
      have feed : byte = 10 := by simpa [Boundary] using boundary
      simp [feed, cut]
    | cons next before =>
      have later : Boundary (next :: before) := by simpa [Boundary] using boundary
      rw [ih later]
      split
      . rfl
      . have ne : cut (next :: before) ≠ [] := by
          simp only [cut]
          split
          . simp
          . split <;> simp
        match whole : cut (next :: before) with
        | [] => exact absurd whole ne
        | first :: others => rfl

theorem cut_eq_singleton (h : line ≠ []) (noFeed : 10 ∉ line.dropLast) : cut line = [line] := by
  induction line with
  | nil => exact absurd rfl h
  | cons byte line ih =>
    simp only [cut]
    cases line with
    | nil => simp [cut]
    | cons next line =>
      rw [List.dropLast_cons_cons, List.mem_cons, not_or] at noFeed
      rw [if_neg (Ne.symm noFeed.1), ih (by simp) noFeed.2]

end Lines

end Interaction
