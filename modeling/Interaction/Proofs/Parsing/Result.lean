import Interaction.Parsing.SyntaxError

/-!
This module contains what readers find, without the record of their failures: one lemma for each
reader says when it succeeds and where it stops.
-/

namespace Interaction

namespace Cursor

variable {c c' : Cursor} {count : Nat} {text rest : List Char}

@[simp]
theorem rest_forward : (c.forward count).rest = c.rest.drop count := rfl

theorem left_lt_iff : c'.left < c.left ↔ c'.rest.length < c.rest.length := by
  rw [c.left_eq, c'.left_eq]

theorem left_lt_of_append (h : c.rest = text ++ c'.rest) (ne : text ≠ []) : c'.left < c.left := by
  have := List.length_pos_iff.2 ne
  rw [left_lt_iff, h, List.length_append]
  omega

end Cursor

namespace Parser

variable {α β : Type} {p q : Parser α} {f : α → Parser β} {a a' : α} {b : β}
variable {c c' c'' : Cursor}
variable {text rest : List Char}

def result (p : Parser α) (c : Cursor) : Option (α × Cursor) := (p c).result

theorem run_eq_ok_iff {text : String} :
    p.run text = .ok a ↔ ∃ c', p.result (.ofText text.toList) = some (a, c') := by
  unfold run result
  match p (.ofText text.toList) with
  | ⟨none, _⟩ => simp
  | ⟨some (_, _), _⟩ => simp

theorem result_pure : (pure a : Parser α).result c = some (a, c) := rfl

theorem result_bind : (p >>= f).result c = (p.result c).bind fun x => (f x.1).result x.2 := by
  unfold result
  simp only [bind]
  rcases p c with ⟨found, _⟩
  cases found <;> rfl

theorem result_map {g : α → β} :
    (g <$> p).result c = (p.result c).map fun x => (g x.1, x.2) := by
  have unfolded : (g <$> p) = p >>= fun a => pure (g a) := rfl
  rw [unfolded, result_bind]
  cases p.result c <;> rfl

theorem result_bind_of (h : p.result c = some (a, c')) : (p >>= f).result c = (f a).result c' := by
  rw [result_bind, h]
  rfl

theorem result_bind_of_none (h : p.result c = none) : (p >>= f).result c = none := by
  rw [result_bind, h]
  rfl

theorem result_bind_eq_some_iff : (p >>= f).result c = some (b, c'') ↔
    ∃ a c', p.result c = some (a, c') ∧ (f a).result c' = some (b, c'') := by
  rw [result_bind, Option.bind_eq_some_iff]
  simp

theorem result_fail : (fail : Parser α).result c = none := rfl

theorem result_orElse : (p <|> q).result c = (p.result c).or (q.result c) := by
  have unfolded : (p <|> q) = orElse p q := rfl
  unfold result
  rw [unfolded]
  unfold orElse
  match p c with
  | ⟨none, _⟩ => rfl
  | ⟨some found, _⟩ => rfl

theorem result_orElse_of (h : p.result c = some (a, c')) :
    (p <|> q).result c = some (a, c') := by
  rw [result_orElse, h]
  rfl

theorem result_orElse_of_none (h : p.result c = none) : (p <|> q).result c = q.result c := by
  rw [result_orElse, h]
  rfl

theorem result_expecting {x : Expectation} : (expecting x p).result c = p.result c := by
  unfold result expecting
  match p c with
  | ⟨none, _⟩ => rfl
  | ⟨some found, _⟩ => rfl

theorem optional_eq : optional p = (some <$> p <|> pure none) := rfl

theorem result_optional_of (h : p.result c = some (a, c')) :
    (optional p).result c = some (some a, c') := by
  rw [optional_eq]
  apply result_orElse_of
  rw [result_map, h]
  rfl

theorem result_optional_of_none (h : p.result c = none) :
    (optional p).result c = some (none, c) := by
  rw [optional_eq, result_orElse_of_none]
  . rfl
  . rw [result_map, h]
    rfl

theorem result_offset : offset.result c = some (c.offset, c) := rfl

theorem result_literal {s : String} :
    (literal s).result c = (c.literal? s.toList).map ((), ·) := rfl

theorem literal?_of (h : c.rest = text ++ rest) :
    c.literal? text = some (c.forward text.length) := by
  unfold Cursor.literal?
  rw [if_pos]
  rw [List.isPrefixOf_iff_prefix, h]
  exact List.prefix_append text rest

theorem result_literal_of {s : String} (h : c.rest = s.toList ++ rest) :
    ∃ c', (literal s).result c = some ((), c') ∧ c'.rest = rest := by
  refine ⟨c.forward s.toList.length, ?_, ?_⟩
  . rw [result_literal, literal?_of h]
    rfl
  . rw [Cursor.rest_forward, h, List.drop_left]

theorem result_literal_of_absent {s : String} (h : ¬s.toList <+: c.rest) :
    (literal s).result c = none := by
  rw [result_literal]
  unfold Cursor.literal?
  rw [if_neg]
  . rfl
  . rw [List.isPrefixOf_iff_prefix]
    exact h

theorem rest_of_literal {s : String} {u : Unit} (h : (literal s).result c = some (u, c')) :
    c.rest = s.toList ++ c'.rest := by
  by_cases isPrefix : s.toList <+: c.rest
  . obtain ⟨rest, eq⟩ := isPrefix
    obtain ⟨c'', found, same⟩ := result_literal_of eq.symm
    rw [found] at h
    cases h
    rw [same, eq]
  . rw [result_literal_of_absent isPrefix] at h
    cases h

theorem result_takeWhile {g : Char → Bool} :
    (takeWhile g).result c = some (String.ofList (c.rest.takeWhile g),
      c.forward (c.rest.takeWhile g).length) := rfl

theorem rest_forward_takeWhile {g : Char → Bool} :
    (c.forward (c.rest.takeWhile g).length).rest = c.rest.dropWhile g := by
  rw [Cursor.rest_forward]
  conv =>
    lhs
    arg 2
    rw [← List.takeWhile_append_dropWhile (p := g) (l := c.rest)]
  rw [List.drop_left]

theorem result_takeWhile1 {g : Char → Bool} :
    (takeWhile1 g).result c =
      if c.rest.takeWhile g = [] then none
      else some (String.ofList (c.rest.takeWhile g), c.forward (c.rest.takeWhile g).length) := by
  unfold takeWhile1
  rw [result_bind_of result_takeWhile]
  split
  . next empty =>
    rw [String.isEmpty_iff, String.ofList_eq_empty_iff] at empty
    rw [if_pos empty]
    exact result_fail
  . next found =>
    rw [String.isEmpty_iff, String.ofList_eq_empty_iff] at found
    rw [if_neg found]
    exact result_pure

theorem result_endOfText : endOfText.result c = if c.rest = [] then some ((), c) else none := by
  unfold result endOfText
  cases c.rest <;> rfl

end Parser

end Interaction
