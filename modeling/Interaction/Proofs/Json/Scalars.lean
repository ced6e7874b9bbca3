import Interaction.Proofs.Json.Values

/-!
This module contains the proof that the readers of values that have to be of one kind find what
trees mean: texts, integers, tables, and any of these or `null`.
-/

namespace Interaction

namespace Json

namespace Reader

variable {α β : Type} {gap lead text rest t u row : List Char} {x : Char} {first : Bool}
variable {n : Nat} {r : Reader α} {mean : Tree → Option α} {c c₁ c' : Cursor} {a : α} {b : β}
variable {levels : Nat}

theorem bind_failPassed_ne_ok {r : Reader β} {cause : β → Cause} :
    (do failPassed (cause (← r)) : Reader α) c ≠ .ok (a, c') := by
  intro h
  obtain ⟨_, _, _, fails⟩ := bind_eq_ok.1 h
  cases fails

theorem advance_bind_failPassed_ne_ok {r : Reader β} {cause : β → Cause} :
    (do advance; failPassed (cause (← r)) : Reader α) c ≠ .ok (a, c') := by
  intro h
  obtain ⟨_, _, _, found⟩ := bind_eq_ok.1 h
  exact bind_failPassed_ne_ok found

theorem mismatch_ne_ok {expected : String} : (mismatch expected : Reader α) c ≠ .ok (a, c') := by
  intro h
  obtain ⟨x, _, found⟩ := head_of_peek h
  split at found
  . exact advance_bind_failPassed_ne_ok found
  . exact advance_bind_failPassed_ne_ok found
  . exact advance_bind_failPassed_ne_ok found
  . exact advance_bind_failPassed_ne_ok found
  . exact advance_bind_failPassed_ne_ok found
  . cases found
  . cases found
  . split at found
    . exact bind_failPassed_ne_ok found
    . cases found
  . cases found

theorem reads_string : Reads string Tree.text? := by
  intro n
  constructor
  . intro c c' s _ found
    refine sound_token (fun c₁ _ found => ?_) found
    generalize head : c₁.rest.head? = x at found
    split at found
    . cases found
    . obtain ⟨c₂, eq, found⟩ := rest_of_advance head found
      exact between_string eq found fun pieces text => text
    . exact absurd found mismatch_ne_ok
  . intro gap text rest tree s isGap spells meaning _ _
    cases spells with
    | string pieces =>
      rw [Piece.quoted, List.cons_append, List.append_assoc]
      exact (finds_token_gap isGap rfl _).bind (finds_stringRest_of meaning rest).advance
    | _ => cases meaning

theorem ReadsWithin.bind {g : α → Reader β} {check : α → Option β} (h : ReadsWithin n r mean)
    (sound : ∀ {a b c c'}, g a c = .ok (b, c') → check a = some b ∧ c = c')
    (complete : ∀ {a b}, check a = some b → ∀ rest, Finds (g a) rest b rest) :
    ReadsWithin n (r >>= g) fun tree => (mean tree).bind check := by
  constructor
  . intro c c' b within found
    obtain ⟨a, c₁, read, checked⟩ := bind_eq_ok.1 found
    obtain ⟨eq, rfl⟩ := sound checked
    obtain ⟨gap, text, tree, isGap, spells, rest, meaning⟩ := h.sound within read
    exact ⟨gap, text, tree, isGap, spells, rest, by rw [meaning, Option.bind_some, eq]⟩
  . intro gap text rest tree b isGap spells meaning apart within
    obtain ⟨a, meaning, checked⟩ := Option.bind_eq_some_iff.1 meaning
    exact (h.complete isGap spells meaning apart within).bind (complete checked rest)

theorem ReadsWithin.map (h : ReadsWithin n r mean) (g : α → β) :
    ReadsWithin n (do let a ← r; pure (g a)) fun tree => (mean tree).map g := by
  have bound : ReadsWithin n (do let a ← r; pure (g a)) fun tree =>
      (mean tree).bind (some ∘ g) := by
    apply h.bind
    . intro a b c c' done
      obtain ⟨rfl, rfl⟩ := pure_eq_ok.1 done
      exact ⟨rfl, rfl⟩
    . rintro a b ⟨⟩ rest
      exact finds_pure _ rest
  simpa only [Option.map_eq_bind] using bound

theorem reads_number : Reads (do
    match ← peekToken with
    | none => failAhead .endInValue
    | some '-' => advance; number true
    | some c => if c.isDigit then number false else mismatch "i64") Tree.number? := by
  intro n
  constructor
  . intro c c' j _ found
    refine sound_token (fun c₁ _ found => ?_) found
    generalize head : c₁.rest.head? = x at found
    split at found
    . cases found
    . obtain ⟨c₂, eq, found⟩ := rest_of_advance head found
      exact between_negative eq found fun l value => value
    . split at found
      . exact between_positive found fun l value => value
      . exact absurd found mismatch_ne_ok
  . intro gap text rest tree j isGap spells meaning apart _
    cases spells with
    | number l =>
      refine finds_number_text meaning apart isGap (fun found => ?_) (fun x t digit found => ?_)
      . exact found.advance
      . obtain ⟨_, _, _, _, _⟩ := ne_of_isDigit digit
        simp only [digit, if_true]
        exact found
    | _ => cases meaning

theorem reads_int64 : Reads int64 Tree.int64? := by
  intro n
  apply (reads_number n).bind
  . intro j i c c' found
    cases j with
    | integer j =>
      unfold Number.int64?
      simp only at found ⊢
      split at found
      . next inRange =>
        obtain ⟨rfl, rfl⟩ := pure_eq_ok.1 found
        exact ⟨if_pos inRange, rfl⟩
      . cases found
    | binary x => cases found
  . intro j i checked rest
    cases j with
    | integer j =>
      unfold Number.int64? at checked
      simp only at checked ⊢
      split at checked
      . next inRange =>
        cases checked
        rw [if_pos inRange]
        exact finds_pure _ rest
      . cases checked
    | binary x => cases checked

theorem ReadsWithin.nullable (h : ReadsWithin n r mean) (notNull : mean .null = none) :
    ReadsWithin n (nullable r) (Tree.nullable? mean) := by
  have of_some {tree : Tree} {a : α} (meaning : mean tree = some a) :
      Tree.nullable? mean tree = some (some a) := by
    cases tree with
    | null => rw [notNull] at meaning; cases meaning
    | _ => exact congrArg (Option.map some) meaning
  constructor
  . intro c c' found within h'
    obtain ⟨gap, c₁, x, isGap, eq, head, found⟩ := rest_of_peekToken h'
    split at found
    . obtain ⟨eq', rfl⟩ := rest_of_word head found
      exact ⟨gap, _, .null, isGap, .null, by rw [eq, eq'], rfl⟩
    . obtain ⟨a, read, rfl⟩ := map_eq_ok.1 found
      rw [eq, List.length_append] at within
      obtain ⟨gap', text, tree, isGap', spells, eq', meaning⟩ := h.sound (by omega) read
      refine ⟨gap ++ gap', text, tree, isGap.append isGap', spells, ?_, of_some meaning⟩
      rw [eq, eq', List.append_assoc]
  . intro gap text rest tree found isGap spells meaning apart within
    by_cases isNull : tree = .null
    . subst isNull
      cases spells
      cases meaning
      exact (finds_token_gap isGap rfl _).bind (finds_word 'n' _ rest _)
    . obtain ⟨x, t, rfl, flush, _, ne⟩ := spells.exists_head
      obtain ⟨a, meaning', rfl⟩ : ∃ a, mean tree = some a ∧ some a = found := by
        cases tree with
        | null => exact absurd rfl isNull
        | _ => exact Option.map_eq_some_iff.1 meaning
      apply (finds_token_gap isGap flush _).bind
      rw [List.length_append] at within
      have read := h.complete gap_nil spells meaning' apart (by rw [List.nil_append]; omega)
      split
      . next eq =>
        cases eq
        exact absurd rfl (ne isNull)
      . exact read.map some

theorem reads_table {value : Nat → Reader α} (h : ReadsWithin n (value levels) mean) :
    ReadsWithin n (table value (levels + 1)) (Tree.table? mean) := by
  constructor
  . intro c c' hops within found
    refine sound_token (fun c₁ le found => ?_) found
    generalize head : c₁.rest.head? = x at found
    split at found
    . cases found
    . obtain ⟨c₂, eq, found⟩ := rest_of_advance head found
      obtain ⟨as, c₃, read, done⟩ := bind_eq_ok.1 found
      obtain ⟨rfl, rfl⟩ := pure_eq_ok.1 done
      rw [eq, List.length_cons] at le
      refine between_object h eq (by omega) read fun entries meanings => ?_
      rw [Tree.table?, meanings]
      rfl
    . exact absurd found mismatch_ne_ok
  . intro gap text rest tree hops isGap spells meaning apart within
    cases spells with
    | @object entries row isRow =>
      obtain ⟨as, meanings, rfl⟩ := Option.map_eq_some_iff.1 meaning
      rw [List.cons_append, List.append_assoc] at within ⊢
      rw [List.length_append, List.length_cons] at within
      have found := complete_members h isRow meanings rest
        (by simp only [List.cons_append, List.nil_append] at within; omega)
      apply (finds_token_gap isGap rfl _).bind
      exact Finds.advance (found.bind (finds_pure _ rest))
    | _ => cases meaning

end Reader

end Json

end Interaction
