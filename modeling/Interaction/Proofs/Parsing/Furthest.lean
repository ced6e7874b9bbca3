import Interaction.Proofs.Parsing.Layout

/-!
This module contains how far readers come before they fail. What is recorded of two readers that
work one after the other, or in place of each other, is what was recorded further on; only a reader
with a name records the place where it began.
-/

namespace Interaction

namespace Furthest

theorem offset_join (a b : Furthest) : (a.join b).offset = max a.offset b.offset := by
  unfold join
  split
  . omega
  split
  . omega
  . simp only
    omega

theorem offset_named (x : Expectation) (offset : Nat) (parts : Furthest) :
    (named x offset parts).offset = max offset parts.offset := by
  unfold named
  split
  . omega
  split
  . omega
  . simp only
    omega

end Furthest

namespace Parser

variable {α β : Type} {p q : Parser α} {f : α → Parser β} {a : α} {as : List α}
variable {c c' : Cursor}

/-- The furthest place at which a reader failed that had a name. -/
def reach (p : Parser α) (c : Cursor) : Nat := (p c).furthest.offset

def Nameless (p : Parser α) : Prop := ∀ c, p.reach c = 0

theorem nameless_pure : Nameless (pure a : Parser α) := fun _ => rfl

theorem nameless_fail : Nameless (fail : Parser α) := fun _ => rfl

theorem nameless_offset : Nameless offset := fun _ => rfl

theorem nameless_literal (s : String) : Nameless (literal s) := fun _ => rfl

theorem nameless_takeWhile (g : Char → Bool) : Nameless (takeWhile g) := fun _ => rfl

theorem nameless_endOfText : Nameless endOfText := fun _ => rfl

theorem reach_bind_of (h : p.result c = some (a, c')) :
    (p >>= f).reach c = max (p.reach c) ((f a).reach c') := by
  unfold result at h
  unfold reach
  simp only [bind]
  rcases attempt : p c with ⟨_ | ⟨b, c₁⟩, furthest⟩
  . simp [attempt] at h
  . rw [attempt] at h
    cases h
    exact Furthest.offset_join _ _

theorem reach_bind_of_none (h : p.result c = none) : (p >>= f).reach c = p.reach c := by
  unfold result at h
  unfold reach
  simp only [bind]
  rcases attempt : p c with ⟨_ | ⟨b, c₁⟩, furthest⟩
  . rfl
  . simp [attempt] at h

theorem reach_map {g : α → β} : (g <$> p).reach c = p.reach c := by
  have unfolded : (g <$> p) = p >>= fun a => pure (g a) := rfl
  rw [unfolded]
  match h : p.result c with
  | none => exact reach_bind_of_none h
  | some (a, c') => rw [reach_bind_of h, nameless_pure, Nat.max_zero]

theorem reach_orElse_of (h : p.result c = some (a, c')) : (p <|> q).reach c = p.reach c := by
  have unfolded : (p <|> q) = orElse p q := rfl
  unfold result at h
  rw [unfolded]
  unfold reach orElse
  rcases attempt : p c with ⟨_ | ⟨b, c₁⟩, furthest⟩
  . simp [attempt] at h
  . rfl

theorem reach_orElse_of_none (h : p.result c = none) :
    (p <|> q).reach c = max (p.reach c) (q.reach c) := by
  have unfolded : (p <|> q) = orElse p q := rfl
  unfold result at h
  rw [unfolded]
  unfold reach orElse
  rcases attempt : p c with ⟨_ | ⟨b, c₁⟩, furthest⟩
  . exact Furthest.offset_join _ _
  . simp [attempt] at h

theorem reach_optional : (optional p).reach c = p.reach c := by
  rw [optional_eq]
  match h : p.result c with
  | none =>
    have none : (some <$> p : Parser (Option α)).result c = none := by rw [result_map, h]; rfl
    rw [reach_orElse_of_none none, reach_map, nameless_pure, Nat.max_zero]
  | some (a, c') =>
    have found : (some <$> p : Parser (Option α)).result c = some (some a, c') := by
      rw [result_map, h]
      rfl
    rw [reach_orElse_of found, reach_map]

theorem reach_expecting_of {x : Expectation} (h : p.result c = some (a, c')) :
    (expecting x p).reach c = p.reach c := by
  unfold result at h
  unfold reach expecting
  rcases attempt : p c with ⟨_ | ⟨b, c₁⟩, furthest⟩
  . simp [attempt] at h
  . rfl

theorem reach_expecting_of_none {x : Expectation} (h : p.result c = none) :
    (expecting x p).reach c = max c.offset (p.reach c) := by
  unfold result at h
  unfold reach expecting
  rcases attempt : p c with ⟨_ | ⟨b, c₁⟩, furthest⟩
  . exact Furthest.offset_named _ _ _
  . simp [attempt] at h

theorem reach_many_of_none (h : p.result c = none) : (manyOf p).reach c = p.reach c := by
  unfold result at h
  unfold reach manyOf
  rw [many]
  rcases attempt : p c with ⟨_ | ⟨b, c₁⟩, furthest⟩
  . rfl
  . simp [attempt] at h

theorem reach_many_of (h : p.result c = some (a, c')) (less : c'.left < c.left) :
    (manyOf p).reach c = max (p.reach c) ((manyOf p).reach c') := by
  unfold result at h
  unfold reach manyOf
  rw [many]
  rcases attempt : p c with ⟨_ | ⟨b, c₁⟩, furthest⟩
  . simp [attempt] at h
  . rw [attempt] at h
    cases h
    simp only [if_pos less]
    exact Furthest.offset_join _ _

theorem Nameless.bind (h : Nameless p) (h' : ∀ a, Nameless (f a)) : Nameless (p >>= f) := by
  intro c
  match found : p.result c with
  | none => exact (reach_bind_of_none found).trans (h c)
  | some (a, c') =>
    rw [reach_bind_of found, h, h']
    exact Nat.max_self 0

theorem Nameless.orElse (h : Nameless p) (h' : Nameless q) : Nameless (p <|> q) := by
  intro c
  match found : p.result c with
  | some (a, c') => exact (reach_orElse_of found).trans (h c)
  | none =>
    rw [reach_orElse_of_none found, h, h']
    exact Nat.max_self 0

theorem Nameless.manyOf (h : Nameless p) : Nameless (manyOf p) := by
  intro c
  induction n : c.left using Nat.strongRecOn generalizing c with
  | _ n ih =>
    have here := h c
    unfold reach at here
    unfold reach Parser.manyOf
    rw [many]
    rcases attempt : p c with ⟨_ | ⟨a, c'⟩, furthest⟩
    . rw [attempt] at here
      exact here
    . rw [attempt] at here
      simp only
      split
      . next less =>
        have later : (many p c').furthest.offset = 0 := ih c'.left (n ▸ less) c' rfl
        rw [Furthest.offset_join, here, later]
        exact Nat.max_self 0
      . exact here

theorem nameless_takeWhile1 (g : Char → Bool) : Nameless (takeWhile1 g) := by
  apply (nameless_takeWhile g).bind
  intro taken
  split
  . exact nameless_fail
  . exact nameless_pure

theorem nameless_blank : Nameless blank :=
  ((nameless_takeWhile1 _).bind fun _ => nameless_pure).orElse
    ((nameless_literal _).bind fun _ => (nameless_takeWhile _).bind fun _ => nameless_pure)

theorem nameless_layout : Nameless layout :=
  nameless_blank.manyOf.bind fun _ => nameless_pure

theorem reach_bind_of_nameless (nameless : Nameless p) (h : p.result c = some (a, c')) :
    (p >>= f).reach c = (f a).reach c' := by
  rw [reach_bind_of h, nameless]
  exact Nat.zero_max _

theorem reach_name_of {s : String} (h : name.result c = some (s, c')) : name.reach c = 0 := by
  unfold name at h ⊢
  rw [result_expecting] at h
  exact (reach_expecting_of h).trans (nameless_takeWhile1 _ c)

theorem reach_name_of_none (h : name.result c = none) : name.reach c = c.offset := by
  unfold name at h ⊢
  rw [result_expecting] at h
  rw [reach_expecting_of_none h, nameless_takeWhile1]
  exact Nat.max_zero _

theorem reach_repeated_of_settled (moves : ∀ c a c', p.result c = some (a, c') → c'.left < c.left)
    (settled : Settled c.rest) :
    (repeated p).reach c = (manyOf (do layout; p)).reach c := by
  have skipped := result_layout_of_settled settled
  have same : (do layout; p : Parser α).result c = p.result c := result_bind_of skipped
  have sameReach : (do layout; p : Parser α).reach c = p.reach c :=
    reach_bind_of_nameless nameless_layout skipped
  rw [repeated_eq]
  match found : p.result c with
  | none =>
    rw [reach_many_of_none (same.trans found), sameReach,
      reach_orElse_of_none (result_bind_of_none found), reach_bind_of_none found, nameless_pure]
    exact Nat.max_zero _
  | some (a, c₁) =>
    obtain ⟨as, c₂, others⟩ := exists_result_many (p := do layout; p) c₁
    have whole : (do let first ← p; let others ← manyOf (do layout; p); pure (first :: others) :
        Parser (List α)).result c = some (a :: as, c₂) := by
      rw [result_bind_of found, result_bind_of others]
      rfl
    rw [reach_many_of (same.trans found) (moves c a c₁ found), sameReach, reach_orElse_of whole,
      reach_bind_of found, reach_bind_of others, nameless_pure, Nat.max_zero]

theorem reach_below (less : c'.left < c.left) : (below c p).reach c' = p.reach c' := by
  unfold reach below
  rw [if_pos less]

theorem reach_nested {p : Parser α → Parser α} :
    (nestedOf p).reach c = (p (below c (nestedOf p))).reach c := by
  unfold reach nestedOf
  rw [nested]
  rfl

end Parser

end Interaction
