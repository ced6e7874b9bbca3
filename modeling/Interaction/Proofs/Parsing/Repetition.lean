import Interaction.Proofs.Parsing.Result

/-!
This module contains what repeated and nested readers find: a repeated reader finds a chain of
findings, up to the first place where it fails.
-/

namespace Interaction

namespace Parser

variable {α : Type} {p : Parser α} {a : α} {as : List α} {c c' c'' : Cursor}

inductive Chain {σ : Type} (R : σ → α → σ → Prop) : σ → List α → σ → Prop where
  | nil (s : σ) : Chain R s [] s
  | cons {s s' s'' : σ} {a : α} {as : List α} :
    R s a s' → Chain R s' as s'' → Chain R s (a :: as) s''

theorem Chain.mono {σ : Type} {R R' : σ → α → σ → Prop} {s t : σ} (h : Chain R s as t)
    (le : ∀ s a t, R s a t → R' s a t) : Chain R' s as t := by
  induction h with
  | nil s => exact .nil s
  | cons step _ ih => exact .cons (le _ _ _ step) ih

theorem Chain.length_le {R : List Char → α → List Char → Prop} {s t : List Char}
    (h : Chain R s as t) (shrinks : ∀ s a t, R s a t → t.length ≤ s.length) :
    t.length ≤ s.length := by
  induction h with
  | nil => exact Nat.le_refl _
  | cons step _ ih => exact Nat.le_trans ih (shrinks _ _ _ step)

def manyOf (p : Parser α) : Parser (List α) := many p

theorem result_many_of_none (h : p.result c = none) : (manyOf p).result c = some ([], c) := by
  unfold result manyOf at *
  rw [many]
  split
  . rfl
  . next found => simp [found] at h

theorem result_many_of (h : p.result c = some (a, c')) (less : c'.left < c.left)
    (rest : (manyOf p).result c' = some (as, c'')) :
    (manyOf p).result c = some (a :: as, c'') := by
  unfold result manyOf at *
  rw [many]
  split
  . next none => simp [none] at h
  . next a' next furthest found =>
    rw [found] at h
    cases h
    rw [if_pos less]
    simp only
    rw [rest]
    rfl

theorem exists_result_many (c : Cursor) : ∃ as c', (manyOf p).result c = some (as, c') := by
  induction n : c.left using Nat.strongRecOn generalizing c with
  | _ n ih =>
    unfold result manyOf
    rw [many]
    split
    . exact ⟨[], c, rfl⟩
    . next a c' _ _ =>
      split
      . next less =>
        obtain ⟨as, c'', found⟩ := ih c'.left (n ▸ less) c' rfl
        unfold result manyOf at found
        simp only
        rw [found]
        exact ⟨a :: as, c'', rfl⟩
      . exact ⟨[a], c', rfl⟩

theorem chain_of_many {c c'' : Cursor} {as : List α} (h : (manyOf p).result c = some (as, c'')) :
    Chain (fun c a c' => p.result c = some (a, c')) c as c'' := by
  unfold result manyOf at h
  rw [many] at h
  split at h
  . cases h
    exact .nil c
  . next a c' furthest found =>
    have first : p.result c = some (a, c') := by
      unfold result
      rw [found]
    split at h
    . next less =>
      simp only [Option.map_eq_some_iff, Prod.mk.injEq] at h
      obtain ⟨⟨as', last⟩, found', rfl, rfl⟩ := h
      exact .cons first (chain_of_many found')
    -- a finding that does not move on is the last one
    . cases h
      exact .cons first (.nil c'')
termination_by c.left

theorem repeated_eq : repeated p =
    ((do
        let first ← p
        let others ← manyOf (do layout; p)
        pure (first :: others))
      <|> pure []) :=
  rfl

/-- A nested reader inside itself: it has to begin further on than the outer one. -/
def below (c : Cursor) (p : Parser α) : Parser α :=
  fun c' => if c'.left < c.left then p c' else fail c'

def nestedOf (p : Parser α → Parser α) : Parser α := nested p

theorem result_nested {p : Parser α → Parser α} :
    (nestedOf p).result c = (p (below c (nestedOf p))).result c := by
  unfold result nestedOf
  rw [nested]
  rfl

theorem result_below (less : c'.left < c.left) : (below c p).result c' = p.result c' := by
  unfold result below
  rw [if_pos less]

theorem result_below_eq_some (h : (below c p).result c' = some (a, c'')) :
    c'.left < c.left ∧ p.result c' = some (a, c'') := by
  unfold result below at *
  split at h
  . next less => exact ⟨less, h⟩
  . cases h

end Parser

end Interaction
