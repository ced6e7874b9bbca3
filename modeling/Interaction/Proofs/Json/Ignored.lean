import Interaction.Proofs.Json.Values

/-!
This module contains the proof that the reader of values that are of no interest passes the text of
every tree, whatever its strings and numbers are and however deep its containers are nested.
-/

namespace Interaction

namespace Json

namespace Reader

variable {gap lead text rest t u row : List Char} {close : Char} {first : Bool}
variable {n : Nat} {r : Reader Unit} {c c₁ c' : Cursor} {v : Unit} {atEnd unclosed : Cause}

def anything {ξ : Type} (_ : ξ) : Option Unit := some ()

theorem mapM_anything {ξ : Type} (xs : List ξ) : ∃ units, xs.mapM anything = some units := by
  induction xs with
  | nil => exact ⟨[], rfl⟩
  | cons x xs ih =>
    obtain ⟨units, eq⟩ := ih
    exact ⟨() :: units, mapM_cons_eq_some.2 ⟨(), units, rfl, eq, rfl⟩⟩

theorem lead_of_ignoredEnd (h : ignoredEnd close first atEnd unclosed c = .ok (false, c')) :
    ∃ lead, Lead first lead ∧ c.rest = lead ++ c'.rest := by
  obtain ⟨gap, c₁, x, isGap, eq, head, found⟩ := rest_of_peekToken h
  split at found
  . cases found
  split at found
  . obtain ⟨_, _, found⟩ := rest_of_advance head found
    cases found
  split at found
  . next isFirst =>
    obtain ⟨_, rfl⟩ := pure_eq_ok.1 found
    subst isFirst
    exact ⟨gap, .first isGap, eq⟩
  next notFirst =>
  split at found
  . next comma =>
    subst comma
    obtain ⟨c₂, eq', found⟩ := rest_of_advance head found
    obtain ⟨_, rfl⟩ := pure_eq_ok.1 found
    rw [Bool.not_eq_true] at notFirst
    subst notFirst
    refine ⟨_, .next isGap gap_nil, ?_⟩
    rw [eq, eq', List.append_assoc]
    rfl
  . cases found

theorem end_of_ignoredEnd (h : ignoredEnd close first atEnd unclosed c = .ok (true, c')) :
    ∃ gap, Gap gap ∧ c.rest = gap ++ close :: c'.rest := by
  obtain ⟨gap, c₁, x, isGap, eq, head, found⟩ := rest_of_peekToken h
  split at found
  . cases found
  split at found
  . next same =>
    subst same
    obtain ⟨c₂, eq', found⟩ := rest_of_advance head found
    obtain ⟨_, rfl⟩ := pure_eq_ok.1 found
    exact ⟨gap, isGap, by rw [eq, eq']⟩
  split at found
  . cases found
  split at found
  . obtain ⟨_, _, found⟩ := rest_of_advance head found
    cases found
  . cases found

theorem finds_ignoredEnd_gap (isClose : close = ']' ∨ close = '\x7d') (isGap : Gap gap)
    (rest : List Char) :
    Finds (ignoredEnd close first atEnd unclosed) (gap ++ close :: rest) true rest := by
  have flush : isSpace close = false := by
    rcases isClose with rfl | rfl <;> decide
  unfold ignoredEnd
  apply (finds_token_gap isGap flush _).bind
  simp only [if_true]
  exact (finds_pure true rest).advance

theorem finds_ignoredEnd_lead (isClose : close = ']' ∨ close = '\x7d') (isLead : Lead first lead)
    {x : Char} (flush : isSpace x = false) (ne : x ≠ close) (t : List Char) :
    ∃ gap, Gap gap ∧ gap.length ≤ lead.length ∧
      Finds (ignoredEnd close first atEnd unclosed) (lead ++ x :: t) false (gap ++ x :: t) := by
  have ne' : ',' ≠ close := by
    rcases isClose with rfl | rfl <;> decide
  unfold ignoredEnd
  cases isLead with
  | first isGap =>
    refine ⟨[], gap_nil, Nat.zero_le _, (finds_token_gap isGap flush _).bind ?_⟩
    simp only [ne, if_true, if_false]
    exact finds_pure false _
  | @next gap gap' isGap isGap' =>
    refine ⟨gap', isGap', by simp; omega, ?_⟩
    rw [List.append_assoc]
    apply (finds_token_gap isGap rfl _).bind
    simp only [ne', Bool.false_eq_true, if_true, if_false]
    exact (finds_pure false _).advance

/-- Whether a reader passes the text of an item, with white space before it, and counts it. -/
structure PassesWithin {ξ : Type} (n : Nat) (p : Reader (Option Unit)) (close : Char)
    (spells : ξ → List Char → Prop) : Prop where
  exists_head : ∀ {x text}, spells x text →
    ∃ y t, text = y :: t ∧ isSpace y = false ∧ y ≠ close
  sound : ∀ {c c' : Cursor} {found : Option Unit}, c.rest.length ≤ n → p c = .ok (found, c') →
    found = some () ∧ ∃ gap text x, Gap gap ∧ spells x text ∧ c.rest = gap ++ (text ++ c'.rest)
  complete : ∀ {gap text rest x}, Gap gap → spells x text → Apart rest →
    (gap ++ (text ++ rest)).length ≤ n → Finds p (gap ++ (text ++ rest)) (some ()) rest

theorem PassesWithin.lists {ξ : Type} {p : Reader (Option Unit)} {spells : ξ → List Char → Prop}
    (h : PassesWithin n p close spells) (isClose : close = ']' ∨ close = '\x7d') :
    Lists n (fun first => do
      if ← ignoredEnd close first atEnd unclosed then pure none
      else p) spells anything (Behind close) where
  ne_nil isItem := by
    obtain ⟨y, t, rfl, _⟩ := h.exists_head isItem
    exact List.cons_ne_nil _ _
  apart closes := closes.apart isClose
  sound_none within found := by
    obtain ⟨ended, c₁, next, found⟩ := bind_eq_ok.1 found
    cases ended with
    | true =>
      obtain ⟨_, rfl⟩ := pure_eq_ok.1 found
      obtain ⟨gap, isGap, eq⟩ := end_of_ignoredEnd next
      exact ⟨gap, _, isGap, eq, rfl⟩
    | false =>
      obtain ⟨lead, _, eq⟩ := lead_of_ignoredEnd next
      rw [eq, List.length_append] at within
      cases (h.sound (by omega) found).1
  sound_some within found := by
    obtain ⟨ended, c₁, next, found⟩ := bind_eq_ok.1 found
    cases ended with
    | true => cases found
    | false =>
      obtain ⟨lead, isLead, eq⟩ := lead_of_ignoredEnd next
      rw [eq, List.length_append] at within
      obtain ⟨_, gap, text, x, isGap, isItem, eq'⟩ := h.sound (by omega) found
      refine ⟨lead ++ gap, text, x, isLead.append isGap, isItem, ?_, rfl⟩
      rw [eq, eq', List.append_assoc]
  complete_none isGap closes := by
    rw [closes]
    exact (finds_ignoredEnd_gap isClose isGap _).bind (finds_pure none _)
  complete_some isLead isItem _ apart within := by
    obtain ⟨y, t, rfl, flush, ne⟩ := h.exists_head isItem
    obtain ⟨gap, isGap, le, found⟩ := finds_ignoredEnd_lead isClose isLead flush ne (t ++ _)
    apply found.bind
    rw [List.length_append] at within
    exact h.complete isGap isItem apart (by rw [List.length_append]; omega)

theorem lists_ignored_items (h : ReadsWithin n r anything) :
    Lists n (fun first => do
      if ← ignoredEnd ']' first .endInList .expectedListEnd then pure none
      else some <$> r) Tree.Spells anything (Behind ']') := by
  refine PassesWithin.lists ⟨?_, ?_, ?_⟩ (.inl rfl)
  . intro tree text spells
    exact spells.opens
  . intro c c' counted within found
    obtain ⟨_, read, rfl⟩ := map_eq_ok.1 found
    obtain ⟨gap, text, tree, isGap, spells, eq, _⟩ := h.sound within read
    exact ⟨rfl, gap, text, tree, isGap, spells, eq⟩
  . intro gap text rest tree isGap spells apart within
    exact (h.complete isGap spells rfl apart within).map some

theorem rest_of_ignoredKey (h : ignoredKey c = .ok (v, c')) :
    ∃ gap key gap', Gap gap ∧ Gap gap' ∧
      c.rest = gap ++ (Piece.quoted key ++ (gap' ++ ':' :: c'.rest)) := by
  obtain ⟨gap, c₁, x, isGap, eq, head, found⟩ := rest_of_peekToken h
  split at found
  . cases found
  . obtain ⟨c₂, eq', found⟩ := rest_of_advance head found
    obtain ⟨_, c₃, passed, found⟩ := bind_eq_ok.1 found
    obtain ⟨key, eq''⟩ := rest_of_ignoredString passed
    obtain ⟨gap', isGap', same⟩ := rest_of_colon found
    refine ⟨gap, key, gap', isGap, isGap', ?_⟩
    rw [eq, eq', eq'', same, Piece.quoted, List.cons_append, List.append_assoc]
    rfl
  . cases found

theorem finds_ignoredKey {gap' : List Char} (isGap : Gap gap) (isGap' : Gap gap')
    (key : List Piece) (rest : List Char) :
    Finds ignoredKey (gap ++ (Piece.quoted key ++ (gap' ++ ':' :: rest))) () rest := by
  unfold ignoredKey
  rw [Piece.quoted, List.cons_append, List.append_assoc]
  apply (finds_token_gap isGap rfl _).bind
  apply Finds.advance
  apply (finds_ignoredString key _).bind
  exact finds_colon_gap isGap' rest

theorem lists_ignored_members (h : ReadsWithin n r anything) :
    Lists n (fun first => do
      if ← ignoredEnd '\x7d' first .endInObject .expectedObjectEnd then pure none
      else
        ignoredKey
        some <$> r) (Entry Tree.Spells) anything (Behind '\x7d') := by
  refine PassesWithin.lists ⟨?_, ?_, ?_⟩ (.inr rfl)
  . intro member text entry
    cases entry with
    | mk => exact ⟨'"', _, rfl, by decide, by decide⟩
  . intro c c' counted within found
    obtain ⟨_, c₁, passed, found⟩ := bind_eq_ok.1 found
    obtain ⟨_, read, rfl⟩ := map_eq_ok.1 found
    obtain ⟨gap, key, gap', isGap, isGap', eq⟩ := rest_of_ignoredKey passed
    rw [eq] at within
    simp only [List.length_append, List.length_cons] at within
    obtain ⟨gap'', text, tree, isGap'', spells, eq', _⟩ := h.sound (by omega) read
    refine ⟨rfl, gap, _, (key, tree), isGap, .mk isGap' isGap'' spells, ?_⟩
    rw [eq, eq']
    simp
  . intro before text rest member isGap entry apart within
    cases entry with
    | @mk key tree gap gap' text isGap' isGap'' spells =>
      simp only [List.length_append, List.length_cons] at within
      have value := h.complete isGap'' spells rfl apart (by simp only [List.length_append]; omega)
      have passed := finds_ignoredKey isGap isGap' key (gap' ++ (text ++ rest))
      simpa only [List.append_assoc, List.cons_append] using passed.bind (value.map some)

theorem reads_inner {p : Reader Unit → Reader Unit} {c₀ : Cursor} (less : n < c₀.rest.length)
    (h : ReadsWithin n (nested p) anything) :
    ReadsWithin n (fun c => if c.left < c₀.left then nested p c else failAhead .expectedValue c)
      anything := by
  have further {c : Cursor} (within : c.rest.length ≤ n) : c.left < c₀.left := by
    rw [Cursor.left_lt_iff]
    omega
  constructor
  . intro c c' a within found
    rw [if_pos (further within)] at found
    exact h.sound within found
  . intro gap text rest tree a isGap spells meaning apart within c eq
    obtain ⟨c', found, eq'⟩ := h.complete isGap spells meaning apart within c eq
    refine ⟨c', ?_, eq'⟩
    simp only
    rw [if_pos (further (eq ▸ within)), found]

theorem sound_ignored (inner : ∀ m, m < c.rest.length → ReadsWithin m ignored anything)
    (found : ignored c = .ok (v, c')) :
    ∃ gap text tree, Gap gap ∧ Tree.Spells tree text ∧ c.rest = gap ++ (text ++ c'.rest) ∧
      anything tree = some v := by
  unfold ignored at found
  rw [nested] at found
  refine sound_token (fun c₁ le found => ?_) found
  generalize head : c₁.rest.head? = x at found
  split at found
  . cases found
  . obtain ⟨c₂, eq, found⟩ := rest_of_advance head found
    exact ⟨_, .null, .null, by rw [eq, rest_of_letters found]; rfl, rfl⟩
  . obtain ⟨c₂, eq, found⟩ := rest_of_advance head found
    exact ⟨_, .bool true, .yes, by rw [eq, rest_of_letters found]; rfl, rfl⟩
  . obtain ⟨c₂, eq, found⟩ := rest_of_advance head found
    exact ⟨_, .bool false, .no, by rw [eq, rest_of_letters found]; rfl, rfl⟩
  . obtain ⟨c₂, eq, found⟩ := rest_of_advance head found
    obtain ⟨l, negative, eq'⟩ := literal_of_ignoredNumber true found
    exact ⟨_, .number l, .number l, by rw [eq, eq', Literal.text, if_pos negative]; rfl, rfl⟩
  . obtain ⟨c₂, eq, found⟩ := rest_of_advance head found
    obtain ⟨pieces, eq'⟩ := rest_of_ignoredString found
    refine ⟨_, .string pieces, .string pieces, ?_, rfl⟩
    rw [eq, eq', Piece.quoted, List.cons_append, List.append_assoc]
    rfl
  . obtain ⟨c₂, eq, found⟩ := rest_of_advance head found
    obtain ⟨units, c₃, collected, done⟩ := bind_eq_ok.1 found
    obtain ⟨_, rfl⟩ := pure_eq_ok.1 done
    rw [eq, List.length_cons] at le
    have reads := reads_inner le (inner _ le)
    obtain ⟨trees, row, u, isRow, eq', closes, _⟩ :=
      (lists_ignored_items reads).sound (Nat.le_refl _) collected
    refine ⟨_, .array trees, .array isRow, ?_, rfl⟩
    rw [eq, eq', closes, List.cons_append, List.append_assoc]
    rfl
  . obtain ⟨c₂, eq, found⟩ := rest_of_advance head found
    obtain ⟨units, c₃, collected, done⟩ := bind_eq_ok.1 found
    obtain ⟨_, rfl⟩ := pure_eq_ok.1 done
    rw [eq, List.length_cons] at le
    have reads := reads_inner le (inner _ le)
    obtain ⟨entries, row, u, isRow, eq', closes, _⟩ :=
      (lists_ignored_members reads).sound (Nat.le_refl _) collected
    refine ⟨_, .object entries, .object isRow, ?_, rfl⟩
    rw [eq, eq', closes, List.cons_append, List.append_assoc]
    rfl
  . split at found
    . obtain ⟨l, negative, eq⟩ := literal_of_ignoredNumber false found
      exact ⟨_, .number l, .number l, by rw [eq, Literal.text, negative]; rfl, rfl⟩
    . cases found

theorem Finds.exists_at {α : Type} {r : Reader α} {a : α} (h : Finds r t a rest) (eq : c.rest = t) :
    ∃ c', r c = .ok (a, c') ∧ c'.rest = rest := h c eq

theorem complete_ignored {tree : Tree} (isGap : Gap gap) (spells : tree.Spells text)
    (apart : Apart rest)
    (inner : ∀ m, m < (gap ++ (text ++ rest)).length → ReadsWithin m ignored anything) :
    Finds ignored (gap ++ (text ++ rest)) () rest := by
  intro c eq
  rw [← eq] at inner
  unfold ignored
  rw [nested]
  refine Finds.exists_at ?_ eq
  cases spells with
  | null => exact (finds_token_gap isGap rfl _).bind (finds_letters _ rest).advance
  | yes => exact (finds_token_gap isGap rfl _).bind (finds_letters _ rest).advance
  | no => exact (finds_token_gap isGap rfl _).bind (finds_letters _ rest).advance
  | number l =>
    have found := finds_ignoredNumber l apart
    unfold Literal.text
    split
    . exact (finds_token_gap isGap rfl _).bind found.advance
    . obtain ⟨x, t, head, digit⟩ := l.exists_head rest
      obtain ⟨_, _, _, _, _, _, _⟩ := ne_of_isDigit digit
      rw [head] at found ⊢
      apply (finds_token_gap isGap (isSpace_of_isDigit digit) _).bind
      simp only [digit, if_true]
      exact found
  | string pieces =>
    rw [Piece.quoted, List.cons_append, List.append_assoc]
    apply (finds_token_gap isGap rfl _).bind
    exact (finds_ignoredString pieces rest).advance
  | @array trees row isRow =>
    rw [List.cons_append, List.append_assoc] at eq ⊢
    apply (finds_token_gap isGap rfl _).bind
    apply Finds.advance
    have less : (row ++ ([']'] ++ rest)).length < c.rest.length := by
      rw [eq]
      simp only [List.length_append, List.length_cons]
      omega
    have reads := reads_inner less (inner _ less)
    obtain ⟨units, meanings⟩ := mapM_anything trees
    have collected := (lists_ignored_items reads).complete isRow meanings rfl (Nat.le_refl _)
    exact collected.bind (finds_pure () rest)
  | @object entries row isRow =>
    rw [List.cons_append, List.append_assoc] at eq ⊢
    apply (finds_token_gap isGap rfl _).bind
    apply Finds.advance
    have less : (row ++ (['\x7d'] ++ rest)).length < c.rest.length := by
      rw [eq]
      simp only [List.length_append, List.length_cons]
      omega
    have reads := reads_inner less (inner _ less)
    obtain ⟨units, meanings⟩ := mapM_anything entries
    have collected := (lists_ignored_members reads).complete isRow meanings rfl (Nat.le_refl _)
    exact collected.bind (finds_pure () rest)

theorem reads_ignored : Reads ignored anything := by
  intro n
  induction n using Nat.strongRecOn with
  | _ n ih =>
    constructor
    . intro c c' v within found
      exact sound_ignored (fun m less => ih m (by omega)) found
    . rintro gap text rest tree ⟨⟩ isGap spells _ apart within
      exact complete_ignored isGap spells apart fun m less => ih m (by omega)

end Reader

end Json

end Interaction
