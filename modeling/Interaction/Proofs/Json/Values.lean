import Interaction.Proofs.Json.Exact
import Interaction.Proofs.Text.Blank

/-!
This module contains the proof that the reader of JSON values finds the values of trees, and what is
read of a whole text.
-/

namespace Interaction

namespace Json

variable {α β : Type} {gap lead text rest t u row : List Char} {x : Char} {first : Bool}

theorem Tree.Spells.exists_head {tree : Tree} (h : tree.Spells text) :
    ∃ x t, text = x :: t ∧ Reader.isSpace x = false ∧ x ≠ ']' ∧ (tree ≠ .null → x ≠ 'n') := by
  cases h with
  | null => exact ⟨'n', _, rfl, by decide, by decide, fun ne => absurd rfl ne⟩
  | yes => exact ⟨'t', _, rfl, by decide, by decide, fun _ => by decide⟩
  | no => exact ⟨'f', _, rfl, by decide, by decide, fun _ => by decide⟩
  | number l =>
    obtain ⟨x, t, eq, digit⟩ := l.whole.exists_head
    unfold Literal.text Literal.unsigned
    rw [eq]
    split
    . exact ⟨'-', _, rfl, by decide, by decide, fun _ => by decide⟩
    . refine ⟨x, _, rfl, Reader.isSpace_of_isDigit digit, ?_, fun _ =>
        (Reader.ne_of_isDigit digit).1⟩
      rintro rfl
      cases digit
  | string => exact ⟨'"', _, rfl, by decide, by decide, fun _ => by decide⟩
  | array => exact ⟨'[', _, rfl, by decide, by decide, fun _ => by decide⟩
  | object => exact ⟨'\x7b', _, rfl, by decide, by decide, fun _ => by decide⟩

theorem Tree.Spells.opens {tree : Tree} (h : tree.Spells text) : Reader.Opens text := by
  obtain ⟨x, t, eq, flush, ne, _⟩ := h.exists_head
  exact ⟨x, t, eq, flush, ne⟩

namespace Reader

variable {n : Nat} {r : Reader α} {mean : Tree → Option α} {c c₁ c' : Cursor} {a : α} {b : β}
variable {levels : Nat}

def Before (close : Char) (u rest : List Char) : Prop := u = rest ∧ u.head? = some close

def Behind (close : Char) (u rest : List Char) : Prop := u = close :: rest

theorem Before.apart {close : Char} (isClose : close = ']' ∨ close = '\x7d')
    (h : Before close u rest) : Apart u := by
  intro x head
  cases head.symm.trans h.2
  rcases isClose with rfl | rfl <;> decide

theorem Behind.apart {close : Char} (isClose : close = ']' ∨ close = '\x7d')
    (h : Behind close u rest) : Apart u := by
  rintro x head
  rw [h] at head
  cases head
  rcases isClose with rfl | rfl <;> decide

theorem lead_of_nextItem (h : nextItem first c = .ok (true, c')) :
    ∃ lead, Lead first lead ∧ c.rest = lead ++ c'.rest := by
  obtain ⟨gap, c₁, x, isGap, eq, head, found⟩ := rest_of_peekToken h
  split at found
  . cases found
  . cases found
  . split at found
    . next isFirst =>
      obtain ⟨_, rfl⟩ := pure_eq_ok.1 found
      subst isFirst
      exact ⟨gap, .first isGap, eq⟩
    next notFirst =>
    split at found
    . next comma =>
      subst comma
      obtain ⟨c₂, eq', found⟩ := rest_of_advance head found
      obtain ⟨gap', c₃, y, isGap', eq'', _, found⟩ := rest_of_peekToken found
      split at found
      . cases found
      . cases found
      . obtain ⟨_, rfl⟩ := pure_eq_ok.1 found
        rw [Bool.not_eq_true] at notFirst
        subst notFirst
        refine ⟨_, .next isGap isGap', ?_⟩
        rw [eq, eq', eq'', List.append_assoc]
        rfl
    . cases found

theorem end_of_nextItem (h : nextItem first c = .ok (false, c')) :
    ∃ gap, Gap gap ∧ c.rest = gap ++ c'.rest ∧ c'.rest.head? = some ']' := by
  obtain ⟨gap, c₁, x, isGap, eq, head, found⟩ := rest_of_peekToken h
  split at found
  . cases found
  . obtain ⟨_, rfl⟩ := pure_eq_ok.1 found
    exact ⟨gap, isGap, eq, head⟩
  . split at found
    . cases found
    split at found
    . obtain ⟨_, _, found⟩ := rest_of_advance head found
      obtain ⟨_, _, _, _, _, _, found⟩ := rest_of_peekToken found
      split at found <;> cases found
    . cases found

theorem finds_nextItem_lead (isLead : Lead first lead) (opens : Opens text) (rest : List Char) :
    Finds (nextItem first) (lead ++ (text ++ rest)) true (text ++ rest) := by
  obtain ⟨x, t, rfl, flush, ne⟩ := opens
  unfold nextItem
  cases isLead with
  | first isGap =>
    apply (finds_token_gap isGap flush _).bind
    simp only [if_true]
    exact finds_pure true _
  | next isGap isGap' =>
    rw [List.append_assoc]
    apply (finds_token_gap isGap rfl _).bind
    apply Finds.advance
    apply (finds_token_gap isGap' flush _).bind
    simp only
    exact finds_pure true _

theorem finds_nextItem_gap (first : Bool) (isGap : Gap gap) (head : u.head? = some ']') :
    Finds (nextItem first) (gap ++ u) false u := by
  obtain ⟨t, rfl⟩ := List.head?_eq_some_iff.1 head
  unfold nextItem
  exact (finds_token_gap isGap rfl _).bind (finds_pure false _)

theorem lists_items (h : ReadsWithin n r mean) :
    Lists n (fun first => do if ← nextItem first then some <$> r else pure none) Tree.Spells mean
      (Before ']') where
  ne_nil spells := List.length_pos_iff.1 spells.opens.length_pos
  apart closes := closes.apart (.inl rfl)
  sound_none within found := by
    obtain ⟨more, c₁, next, found⟩ := bind_eq_ok.1 found
    cases more with
    | false =>
      obtain ⟨_, rfl⟩ := pure_eq_ok.1 found
      obtain ⟨gap, isGap, eq, head⟩ := end_of_nextItem next
      exact ⟨gap, _, isGap, eq, rfl, head⟩
    | true =>
      obtain ⟨_, _, same⟩ := map_eq_ok.1 found
      cases same
  sound_some within found := by
    obtain ⟨more, c₁, next, found⟩ := bind_eq_ok.1 found
    cases more with
    | false => cases found
    | true =>
      obtain ⟨_, found, same⟩ := map_eq_ok.1 found
      cases same
      obtain ⟨lead, isLead, eq⟩ := lead_of_nextItem next
      rw [eq, List.length_append] at within
      obtain ⟨gap, text, tree, isGap, spells, eq', meaning⟩ := h.sound (by omega) found
      refine ⟨lead ++ gap, text, tree, isLead.append isGap, spells, ?_, meaning⟩
      rw [eq, eq', List.append_assoc]
  complete_none isGap closes := by
    obtain ⟨rfl, head⟩ := closes
    exact (finds_nextItem_gap _ isGap head).bind (finds_pure none _)
  complete_some isLead spells meaning apart within := by
    rw [List.length_append] at within
    apply (finds_nextItem_lead isLead spells.opens _).bind
    exact (h.complete gap_nil spells meaning apart (by rw [List.nil_append]; omega)).map some

theorem rest_of_key {key : String} (head : c.rest.head? = some '"')
    (h : (do advance; some <$> stringRest) c = .ok (some key, c')) :
    ∃ pieces, Piece.string? pieces = some key ∧ c.rest = Piece.quoted pieces ++ c'.rest := by
  obtain ⟨c₁, eq, found⟩ := rest_of_advance head h
  obtain ⟨_, found, same⟩ := map_eq_ok.1 found
  cases same
  obtain ⟨pieces, text, eq'⟩ := rest_of_stringRest found
  refine ⟨pieces, text, ?_⟩
  rw [eq, eq', Piece.quoted, List.cons_append, List.append_assoc]
  rfl

theorem lead_of_nextKey {key : String} (h : nextKey first c = .ok (some key, c')) :
    ∃ lead pieces, Lead first lead ∧ Piece.string? pieces = some key ∧
      c.rest = lead ++ (Piece.quoted pieces ++ c'.rest) := by
  obtain ⟨gap, c₁, x, isGap, eq, head, found⟩ := rest_of_peekToken h
  split at found
  . cases found
  . cases found
  . split at found
    . next isFirst =>
      subst isFirst
      split at found
      . next quote =>
        subst quote
        obtain ⟨pieces, text, eq'⟩ := rest_of_key head found
        exact ⟨gap, pieces, .first isGap, text, by rw [eq, eq']⟩
      . cases found
    next notFirst =>
    split at found
    . next comma =>
      subst comma
      obtain ⟨c₂, eq', found⟩ := rest_of_advance head found
      obtain ⟨gap', c₃, y, isGap', eq'', head', found⟩ := rest_of_peekToken found
      rw [Bool.not_eq_true] at notFirst
      subst notFirst
      split at found
      . cases found
      . obtain ⟨pieces, text, same⟩ := rest_of_key head' found
        refine ⟨_, pieces, .next isGap isGap', text, ?_⟩
        rw [eq, eq', eq'', same, List.append_assoc]
        rfl
      . cases found
      . cases found
    . cases found

theorem not_none_of_key (head : c.rest.head? = some '"') :
    (do advance; some <$> stringRest) c ≠ .ok (none, c') := by
  intro h
  obtain ⟨_, _, found⟩ := rest_of_advance head h
  obtain ⟨_, _, same⟩ := map_eq_ok.1 found
  cases same

theorem end_of_nextKey (h : nextKey first c = .ok (none, c')) :
    ∃ gap, Gap gap ∧ c.rest = gap ++ c'.rest ∧ c'.rest.head? = some '\x7d' := by
  obtain ⟨gap, c₁, x, isGap, eq, head, found⟩ := rest_of_peekToken h
  split at found
  . cases found
  . obtain ⟨_, rfl⟩ := pure_eq_ok.1 found
    exact ⟨gap, isGap, eq, head⟩
  . split at found
    . split at found
      . next quote =>
        subst quote
        exact absurd found (not_none_of_key head)
      . cases found
    split at found
    . obtain ⟨_, _, found⟩ := rest_of_advance head found
      obtain ⟨_, _, _, _, _, head', found⟩ := rest_of_peekToken found
      split at found
      . cases found
      . exact absurd found (not_none_of_key head')
      . cases found
      . cases found
    . cases found

theorem finds_key {pieces : List Piece} {key : String} (text : Piece.string? pieces = some key)
    (rest : List Char) :
    Finds (do advance; some <$> stringRest) (Piece.quoted pieces ++ rest) (some key) rest := by
  rw [Piece.quoted, List.cons_append, List.append_assoc]
  exact ((finds_stringRest_of text rest).map some).advance

theorem finds_nextKey_lead {pieces : List Piece} {key : String} (isLead : Lead first lead)
    (text : Piece.string? pieces = some key) (rest : List Char) :
    Finds (nextKey first) (lead ++ (Piece.quoted pieces ++ rest)) (some key) rest := by
  have found := finds_key text rest
  unfold nextKey
  cases isLead with
  | first isGap => exact (finds_token_gap isGap rfl _).bind found
  | next isGap isGap' =>
    rw [List.append_assoc]
    apply (finds_token_gap isGap rfl _).bind
    apply Finds.advance
    exact (finds_token_gap isGap' rfl _).bind found

theorem finds_nextKey_gap (first : Bool) (isGap : Gap gap) (head : u.head? = some '\x7d') :
    Finds (nextKey first) (gap ++ u) none u := by
  obtain ⟨t, rfl⟩ := List.head?_eq_some_iff.1 head
  unfold nextKey
  exact (finds_token_gap isGap rfl _).bind (finds_pure none _)

theorem rest_of_colon {v : Unit} (h : colon c = .ok (v, c')) :
    ∃ gap, Gap gap ∧ c.rest = gap ++ ':' :: c'.rest := by
  obtain ⟨gap, c₁, x, isGap, eq, head, found⟩ := rest_of_peekToken h
  split at found
  . cases found
  . obtain ⟨t, eq'⟩ := List.head?_eq_some_iff.1 head
    cases found
    exact ⟨gap, isGap, by rw [eq, Cursor.rest_next eq', eq']⟩
  . cases found

theorem finds_colon_gap (isGap : Gap gap) (rest : List Char) :
    Finds colon (gap ++ ':' :: rest) () rest := by
  unfold colon
  exact (finds_token_gap isGap rfl _).bind (finds_advance ':' rest)

theorem ReadsWithin.sound_member {v : Unit} (h : ReadsWithin n r mean)
    (within : c.rest.length ≤ n) (passed : colon c = .ok (v, c₁)) (found : r c₁ = .ok (a, c')) :
    ∃ behind tree, mean tree = some a ∧ c.rest = behind ++ c'.rest ∧
      ∀ key, Entry Tree.Spells (key, tree) (Piece.quoted key ++ behind) := by
  obtain ⟨gap, isGap, eq⟩ := rest_of_colon passed
  rw [eq, List.length_append, List.length_cons] at within
  obtain ⟨gap', text, tree, isGap', spells, eq', meaning⟩ := h.sound (by omega) found
  refine ⟨gap ++ ':' :: (gap' ++ text), tree, meaning, ?_, fun key => .mk isGap isGap' spells⟩
  rw [eq, eq']
  simp

theorem lists_members (h : ReadsWithin n r mean) :
    Lists n (fun first => do
      match ← nextKey first with
      | none => pure none
      | some key =>
        colon
        let v ← r
        pure (some (key, v))) (Entry Tree.Spells) (Tree.member? mean) (Before '\x7d') where
  ne_nil spells := by
    cases spells with
    | mk => exact List.cons_ne_nil _ _
  apart closes := closes.apart (.inr rfl)
  sound_none within found := by
    obtain ⟨key, c₁, next, found⟩ := bind_eq_ok.1 found
    cases key with
    | none =>
      obtain ⟨_, rfl⟩ := pure_eq_ok.1 found
      obtain ⟨gap, isGap, eq, head⟩ := end_of_nextKey next
      exact ⟨gap, _, isGap, eq, rfl, head⟩
    | some key =>
      obtain ⟨_, _, _, found⟩ := bind_eq_ok.1 found
      obtain ⟨_, _, _, done⟩ := bind_eq_ok.1 found
      cases done
  sound_some within found := by
    obtain ⟨key, c₁, next, found⟩ := bind_eq_ok.1 found
    cases key with
    | none => cases found
    | some key =>
      obtain ⟨_, c₂, passed, found⟩ := bind_eq_ok.1 found
      obtain ⟨a, c₃, value, done⟩ := bind_eq_ok.1 found
      obtain ⟨same, rfl⟩ := pure_eq_ok.1 done
      cases same
      obtain ⟨lead, pieces, isLead, text, eq⟩ := lead_of_nextKey next
      rw [eq, List.length_append, List.length_append] at within
      obtain ⟨behind, tree, meaning, eq', entry⟩ := h.sound_member (by omega) passed value
      refine ⟨lead, _, (pieces, tree), isLead, entry pieces, ?_, ?_⟩
      . rw [eq, eq', List.append_assoc]
      . unfold Tree.member?
        simp [text, meaning]
  complete_none isGap closes := by
    obtain ⟨rfl, head⟩ := closes
    exact (finds_nextKey_gap _ isGap head).bind (finds_pure none _)
  complete_some isLead spells meaning apart within := by
    cases spells with
    | mk isGap isGap' spells =>
      simp only [Tree.member?, Option.bind_eq_bind, Option.bind_eq_some_iff, Option.pure_def,
        Option.some.injEq] at meaning
      obtain ⟨key, text, a, meaning, rfl⟩ := meaning
      simp only [List.append_assoc, List.cons_append] at within ⊢
      apply (finds_nextKey_lead isLead text _).bind
      apply (finds_colon_gap isGap _).bind
      simp only [List.length_append, List.length_cons] at within
      have value := h.complete isGap' spells meaning apart
        (by simp only [List.length_append]; omega)
      exact value.bind (finds_pure _ _)

theorem rest_of_close {close : Char} {p : β} (h : Before close u c.rest)
    (found : (do advance; pure p : Reader β) c = .ok (b, c')) : u = close :: c'.rest ∧ p = b := by
  obtain ⟨rfl, head⟩ := h
  obtain ⟨c₁, eq, done⟩ := rest_of_advance head found
  obtain ⟨rfl, rfl⟩ := pure_eq_ok.1 done
  exact ⟨eq, rfl⟩

theorem sound_items {as : List α} (h : ReadsWithin n r mean) (within : c.rest.length ≤ n)
    (found : items r c = .ok (as, c')) :
    ∃ trees row, Row Tree.Spells true trees row ∧ c.rest = row ++ ']' :: c'.rest ∧
      trees.mapM mean = some as := by
  obtain ⟨as', c₁, collected, done⟩ := bind_eq_ok.1 found
  obtain ⟨trees, row, u, isRow, eq, closes, meanings⟩ := (lists_items h).sound within collected
  obtain ⟨rfl, rfl⟩ := rest_of_close closes done
  exact ⟨trees, row, isRow, eq, meanings⟩

theorem complete_items {trees : List Tree} {as : List α} (h : ReadsWithin n r mean)
    (isRow : Row Tree.Spells true trees row) (meanings : trees.mapM mean = some as)
    (rest : List Char) (within : (row ++ ']' :: rest).length ≤ n) :
    Finds (items r) (row ++ ']' :: rest) as rest := by
  have closes : Before ']' (']' :: rest) (']' :: rest) := ⟨rfl, rfl⟩
  have collected := (lists_items h).complete isRow meanings closes within
  exact collected.bind (finds_pure as rest).advance

theorem sound_members {as : List (String × α)} (h : ReadsWithin n r mean)
    (within : c.rest.length ≤ n) (found : members r c = .ok (as, c')) :
    ∃ entries row, Row (Entry Tree.Spells) true entries row ∧ c.rest = row ++ '\x7d' :: c'.rest ∧
      entries.mapM (Tree.member? mean) = some as := by
  obtain ⟨as', c₁, collected, done⟩ := bind_eq_ok.1 found
  obtain ⟨trees, row, u, isRow, eq, closes, meanings⟩ := (lists_members h).sound within collected
  obtain ⟨rfl, rfl⟩ := rest_of_close closes done
  exact ⟨trees, row, isRow, eq, meanings⟩

theorem complete_members {entries : List (List Piece × Tree)} {as : List (String × α)}
    (h : ReadsWithin n r mean) (isRow : Row (Entry Tree.Spells) true entries row)
    (meanings : entries.mapM (Tree.member? mean) = some as) (rest : List Char)
    (within : (row ++ '\x7d' :: rest).length ≤ n) :
    Finds (members r) (row ++ '\x7d' :: rest) as rest := by
  have closes : Before '\x7d' ('\x7d' :: rest) ('\x7d' :: rest) := ⟨rfl, rfl⟩
  have collected := (lists_members h).complete isRow meanings closes within
  exact collected.bind (finds_pure as rest).advance

theorem rest_of_word {word : List Char} {p : β} (head : c.rest.head? = some x)
    (h : (do advance; letters word; pure p) c = .ok (b, c')) :
    c.rest = x :: word ++ c'.rest ∧ p = b := by
  obtain ⟨c₁, eq, found⟩ := rest_of_advance head h
  obtain ⟨_, c₂, passed, done⟩ := bind_eq_ok.1 found
  obtain ⟨rfl, rfl⟩ := pure_eq_ok.1 done
  exact ⟨by rw [eq, rest_of_letters passed]; rfl, rfl⟩

theorem finds_word (x : Char) (word rest : List Char) (p : β) :
    Finds (do advance; letters word; pure p) (x :: (word ++ rest)) p rest := by
  apply Finds.advance
  exact (finds_letters word rest).bind (finds_pure p rest)

end Reader

namespace Tree

variable {levels : Nat}

theorem mapM_valueWithin? (levels : Nat) (items : List Tree) :
    items.mapM (valueWithin? levels) =
      if depthOfItems items ≤ levels then valueOfItems? items else none := by
  induction items with
  | nil => rfl
  | cons item items ih =>
    rw [List.mapM_cons, ih, valueOfItems?, depthOfItems, valueWithin?]
    by_cases shallow : item.depth ≤ levels
    . by_cases others : depthOfItems items ≤ levels
      . simp [shallow, others]
      . simp [shallow, others]
    . simp [shallow]

theorem mapM_member?_valueWithin? (levels : Nat) (members : List (List Piece × Tree)) :
    members.mapM (member? (valueWithin? levels)) =
      if depthOfMembers members ≤ levels then valueOfMembers? members else none := by
  induction members with
  | nil => rfl
  | cons member members ih =>
    obtain ⟨key, tree⟩ := member
    rw [List.mapM_cons, ih, valueOfMembers?, depthOfMembers, member?, valueWithin?]
    by_cases shallow : tree.depth ≤ levels
    . by_cases others : depthOfMembers members ≤ levels
      . simp [shallow, others, Option.bind_assoc]
      . simp [shallow, others]
    . simp [shallow]

theorem valueWithin?_number (l : Literal) :
    valueWithin? levels (number l) = l.number?.map .number := by
  simp [valueWithin?, depth, value?]

theorem valueWithin?_string (pieces : List Piece) :
    valueWithin? levels (string pieces) = (Piece.string? pieces).map .string := by
  simp [valueWithin?, depth, value?]

theorem valueWithin?_array (trees : List Tree) :
    valueWithin? (levels + 1) (array trees) =
      (trees.mapM (valueWithin? levels)).map .array := by
  rw [mapM_valueWithin?, valueWithin?, depth, value?]
  simp only [Nat.add_le_add_iff_right]
  split <;> rfl

theorem valueWithin?_object (entries : List (List Piece × Tree)) :
    valueWithin? (levels + 1) (object entries) =
      (entries.mapM (member? (valueWithin? levels))).map fun ms =>
        .object (Reader.sortMembers ms) := by
  rw [mapM_member?_valueWithin?, valueWithin?, depth, value?]
  simp only [Nat.add_le_add_iff_right]
  split <;> rfl

end Tree

namespace Reader

def Between (c c' : Cursor) (mean : Tree → Option α) (a : α) : Prop :=
  ∃ text tree, tree.Spells text ∧ c.rest = text ++ c'.rest ∧ mean tree = some a

theorem sound_token {f : Option Char → Reader α}
    (after : ∀ c₁, c₁.rest.length ≤ c.rest.length → f c₁.rest.head? c₁ = .ok (a, c') →
      Between c₁ c' mean a) (h : (peekToken >>= f) c = .ok (a, c')) :
    ∃ gap text tree, Gap gap ∧ tree.Spells text ∧ c.rest = gap ++ (text ++ c'.rest) ∧
      mean tree = some a := by
  obtain ⟨gap, c₁, x, isGap, eq, rfl, found⟩ := rest_of_peekToken h
  have le : c₁.rest.length ≤ c.rest.length := by
    rw [eq, List.length_append]
    omega
  obtain ⟨text, tree, spells, eq', meaning⟩ := after c₁ le found
  exact ⟨gap, text, tree, isGap, spells, by rw [eq, eq'], meaning⟩

theorem between_negative {j : Number} (eq : c.rest = '-' :: c₁.rest)
    (h : number true c₁ = .ok (j, c')) (meaning : ∀ l, l.number? = some j →
      mean (.number l) = some a) : Between c c' mean a := by
  obtain ⟨l, negative, eq', value⟩ := literal_of_number h
  refine ⟨_, _, .number l, ?_, meaning l value⟩
  rw [eq, eq', Literal.text, if_pos negative]
  rfl

theorem between_positive {j : Number} (h : number false c = .ok (j, c'))
    (meaning : ∀ l, l.number? = some j → mean (.number l) = some a) : Between c c' mean a := by
  obtain ⟨l, negative, eq, value⟩ := literal_of_number h
  refine ⟨_, _, .number l, ?_, meaning l value⟩
  rw [eq, Literal.text, negative]
  rfl

theorem between_string {s : String} (eq : c.rest = '"' :: c₁.rest)
    (h : stringRest c₁ = .ok (s, c')) (meaning : ∀ pieces, Piece.string? pieces = some s →
      mean (.string pieces) = some a) : Between c c' mean a := by
  obtain ⟨pieces, text, eq'⟩ := rest_of_stringRest h
  refine ⟨_, _, .string pieces, ?_, meaning pieces text⟩
  rw [eq, eq', Piece.quoted, List.cons_append, List.append_assoc]
  rfl

theorem between_array {r : Reader β} {meanItem : Tree → Option β} {bs : List β}
    (h : ReadsWithin n r meanItem) (eq : c.rest = '[' :: c₁.rest) (within : c₁.rest.length ≤ n)
    (read : items r c₁ = .ok (bs, c'))
    (meaning : ∀ trees, trees.mapM meanItem = some bs → mean (.array trees) = some a) :
    Between c c' mean a := by
  obtain ⟨trees, row, isRow, eq', meanings⟩ := sound_items h within read
  refine ⟨_, .array trees, .array isRow, ?_, meaning trees meanings⟩
  rw [eq, eq', List.cons_append, List.append_assoc]
  rfl

theorem between_object {r : Reader β} {meanItem : Tree → Option β} {bs : List (String × β)}
    (h : ReadsWithin n r meanItem) (eq : c.rest = '\x7b' :: c₁.rest) (within : c₁.rest.length ≤ n)
    (read : members r c₁ = .ok (bs, c')) (meaning : ∀ entries,
      entries.mapM (Tree.member? meanItem) = some bs → mean (.object entries) = some a) :
    Between c c' mean a := by
  obtain ⟨entries, row, isRow, eq', meanings⟩ := sound_members h within read
  refine ⟨_, .object entries, .object isRow, ?_, meaning entries meanings⟩
  rw [eq, eq', List.cons_append, List.append_assoc]
  rfl

theorem sound_value (inner : ∀ l, l < levels → ReadsWithin n (value l) (Tree.valueWithin? l))
    {j : Json} (within : c.rest.length ≤ n) (found : value levels c = .ok (j, c')) :
    ∃ gap text tree, Gap gap ∧ tree.Spells text ∧ c.rest = gap ++ (text ++ c'.rest) ∧
      Tree.valueWithin? levels tree = some j := by
  unfold value at found
  refine sound_token (fun c₁ le found => ?_) found
  generalize head : c₁.rest.head? = x at found
  split at found
  . cases found
  . obtain ⟨eq, rfl⟩ := rest_of_word head found
    exact ⟨_, .null, .null, eq, rfl⟩
  . obtain ⟨eq, rfl⟩ := rest_of_word head found
    exact ⟨_, .bool true, .yes, eq, rfl⟩
  . obtain ⟨eq, rfl⟩ := rest_of_word head found
    exact ⟨_, .bool false, .no, eq, rfl⟩
  . obtain ⟨c₂, eq, found⟩ := rest_of_advance head found
    obtain ⟨j, read, rfl⟩ := map_eq_ok.1 found
    refine between_negative eq read fun l value => ?_
    rw [Tree.valueWithin?_number, value]
    rfl
  . obtain ⟨c₂, eq, found⟩ := rest_of_advance head found
    obtain ⟨s, read, rfl⟩ := map_eq_ok.1 found
    refine between_string eq read fun pieces text => ?_
    rw [Tree.valueWithin?_string, text]
    rfl
  . cases levels with
    | zero => cases found
    | succ levels =>
      obtain ⟨c₂, eq, found⟩ := rest_of_advance head found
      obtain ⟨js, read, rfl⟩ := map_eq_ok.1 found
      rw [eq, List.length_cons] at le
      refine between_array (inner levels (Nat.lt_succ_self _)) eq (by omega) read
        fun trees meanings => ?_
      rw [Tree.valueWithin?_array, meanings]
      rfl
  . cases levels with
    | zero => cases found
    | succ levels =>
      obtain ⟨c₂, eq, found⟩ := rest_of_advance head found
      obtain ⟨ms, c₃, read, done⟩ := bind_eq_ok.1 found
      obtain ⟨rfl, rfl⟩ := pure_eq_ok.1 done
      rw [eq, List.length_cons] at le
      refine between_object (inner levels (Nat.lt_succ_self _)) eq (by omega) read
        fun entries meanings => ?_
      rw [Tree.valueWithin?_object, meanings]
      rfl
  . split at found
    . obtain ⟨j, read, rfl⟩ := map_eq_ok.1 found
      refine between_positive read fun l value => ?_
      rw [Tree.valueWithin?_number, value]
      rfl
    . cases found

theorem finds_number_text {f : Option Char → Reader β} {j : Number} {l : Literal}
    (value : l.number? = some j) (apart : Apart rest) (isGap : Gap gap)
    (negative : Finds (number true) (l.unsigned ++ rest) j rest →
      Finds (f (some '-')) ('-' :: (l.unsigned ++ rest)) b rest)
    (positive : ∀ x t, x.isDigit = true → Finds (number false) (x :: t) j rest →
      Finds (f (some x)) (x :: t) b rest) :
    Finds (peekToken >>= f) (gap ++ (l.text ++ rest)) b rest := by
  have found := finds_number_of l value apart
  unfold Literal.text
  split
  . next sign =>
    rw [sign] at found
    exact (finds_token_gap isGap rfl _).bind (negative found)
  . next sign =>
    rw [Bool.not_eq_true] at sign
    rw [sign] at found
    obtain ⟨x, t, head, digit⟩ := l.exists_head rest
    rw [head] at found ⊢
    exact (finds_token_gap isGap (isSpace_of_isDigit digit) _).bind (positive _ _ digit found)

theorem complete_value (inner : ∀ l, l < levels → ReadsWithin n (value l) (Tree.valueWithin? l))
    {tree : Tree} {j : Json} (isGap : Gap gap) (spells : tree.Spells text)
    (meaning : Tree.valueWithin? levels tree = some j) (apart : Apart rest)
    (within : (gap ++ (text ++ rest)).length ≤ n) :
    Finds (value levels) (gap ++ (text ++ rest)) j rest := by
  unfold value
  cases spells with
  | null =>
    cases meaning
    exact (finds_token_gap isGap rfl _).bind (finds_word 'n' _ rest _)
  | yes =>
    cases meaning
    exact (finds_token_gap isGap rfl _).bind (finds_word 't' _ rest _)
  | no =>
    cases meaning
    exact (finds_token_gap isGap rfl _).bind (finds_word 'f' _ rest _)
  | number l =>
    rw [Tree.valueWithin?_number] at meaning
    obtain ⟨j, value, rfl⟩ := Option.map_eq_some_iff.1 meaning
    refine finds_number_text value apart isGap (fun found => ?_) (fun x t digit found => ?_)
    . exact (found.map Json.number).advance
    . obtain ⟨_, _, _, _, _, _, _⟩ := ne_of_isDigit digit
      simp only [digit, if_true]
      exact found.map Json.number
  | string pieces =>
    rw [Tree.valueWithin?_string] at meaning
    obtain ⟨s, text, rfl⟩ := Option.map_eq_some_iff.1 meaning
    rw [Piece.quoted, List.cons_append, List.append_assoc]
    apply (finds_token_gap isGap rfl _).bind
    exact ((finds_stringRest_of text rest).map Json.string).advance
  | @array trees row isRow =>
    rw [List.cons_append, List.append_assoc] at within ⊢
    apply (finds_token_gap isGap rfl _).bind
    cases levels with
    | zero => cases meaning
    | succ levels =>
      rw [Tree.valueWithin?_array] at meaning
      obtain ⟨js, meanings, rfl⟩ := Option.map_eq_some_iff.1 meaning
      rw [List.length_append, List.length_cons] at within
      have found := complete_items (inner levels (Nat.lt_succ_self _)) isRow meanings rest
        (by simp only [List.cons_append, List.nil_append] at within; omega)
      exact (found.map Json.array).advance
  | @object entries row isRow =>
    rw [List.cons_append, List.append_assoc] at within ⊢
    apply (finds_token_gap isGap rfl _).bind
    cases levels with
    | zero => cases meaning
    | succ levels =>
      rw [Tree.valueWithin?_object] at meaning
      obtain ⟨ms, meanings, rfl⟩ := Option.map_eq_some_iff.1 meaning
      rw [List.length_append, List.length_cons] at within
      have found := complete_members (inner levels (Nat.lt_succ_self _)) isRow meanings rest
        (by simp only [List.cons_append, List.nil_append] at within; omega)
      exact Finds.advance (found.bind (finds_pure _ rest))

theorem reads_value (levels : Nat) : Reads (value levels) (Tree.valueWithin? levels) := by
  intro n
  induction levels using Nat.strongRecOn with
  | _ levels ih => exact ⟨fun within found => sound_value ih within found, complete_value ih⟩

theorem exists_of_run' {r : Reader α} (h : (StateT.run' r c : Except Error α) = .ok a) :
    ∃ c', r c = .ok (a, c') := by
  unfold StateT.run' at h
  cases found : r c with
  | error e =>
    rw [found] at h
    cases h
  | ok p =>
    rw [found] at h
    cases h
    exact ⟨p.2, rfl⟩

theorem Reads.run_eq_ok_iff (h : Reads r mean) :
    r.run t = .ok a ↔ ∃ gap text gap' tree, Gap gap ∧ Gap gap' ∧ Tree.Spells tree text ∧
      t = gap ++ (text ++ gap') ∧ mean tree = some a := by
  constructor
  . intro found
    obtain ⟨c', found⟩ := exists_of_run' found
    obtain ⟨a', c₁, read, found⟩ := bind_eq_ok.1 found
    obtain ⟨gap, text, tree, isGap, spells, eq, meaning⟩ := (h _).sound (Nat.le_refl _) read
    obtain ⟨gap', c₂, x, isGap', eq', head, found⟩ := rest_of_peekToken found
    split at found
    . obtain ⟨rfl, rfl⟩ := pure_eq_ok.1 found
      rw [List.head?_eq_none_iff.1 head, List.append_nil] at eq'
      exact ⟨gap, text, gap', tree, isGap, isGap', spells, eq' ▸ eq, meaning⟩
    . cases found
  . rintro ⟨gap, text, gap', tree, isGap, isGap', spells, rfl, meaning⟩
    have apart : Apart gap' := by
      have apart := isGap'.apart apart_nil
      rwa [List.append_nil] at apart
    have found := (h _).complete isGap spells meaning apart (Nat.le_refl _)
    unfold run
    apply run'_of_finds
    exact found.bind ((finds_token_end isGap').bind (finds_pure a []))

theorem isBlank_of_isSpace (space : isSpace x = true) : Text.isBlank x = true := by
  unfold isSpace at space
  simp only [Bool.or_eq_true, beq_iff_eq] at space
  rcases space with ((rfl | rfl) | rfl) | rfl <;> rfl

theorem gaps_eq_nil {gap' : List Char} (flush : Text.Unpadded (gap ++ (text ++ gap')))
    (isGap : Gap gap) (isGap' : Gap gap') : gap = [] ∧ gap' = [] := by
  constructor
  . cases gap with
    | nil => rfl
    | cons x gap =>
      have blank := isBlank_of_isSpace (isGap x List.mem_cons_self)
      exact Bool.noConfusion ((flush x (.inl rfl)).symm.trans blank)
  . cases eq : gap'.getLast? with
    | none => exact List.getLast?_eq_none_iff.1 eq
    | some x =>
      have blank := isBlank_of_isSpace (isGap' x (List.mem_of_getLast? eq))
      have last : (gap ++ (text ++ gap')).getLast? = some x := by
        rw [List.getLast?_append, List.getLast?_append, eq]
        rfl
      exact Bool.noConfusion ((flush x (.inr last)).symm.trans blank)

theorem Reads.run_eq_ok_iff_of_unpadded (h : Reads r mean) (flush : Text.Unpadded t) :
    r.run t = .ok a ↔ ∃ tree, Tree.Spells tree t ∧ mean tree = some a := by
  rw [h.run_eq_ok_iff]
  constructor
  . rintro ⟨gap, text, gap', tree, isGap, isGap', spells, rfl, meaning⟩
    obtain ⟨rfl, rfl⟩ := gaps_eq_nil flush isGap isGap'
    rw [List.append_nil]
    exact ⟨tree, spells, meaning⟩
  . rintro ⟨tree, spells, meaning⟩
    exact ⟨[], t, [], tree, gap_nil, gap_nil, spells, (List.append_nil t).symm, meaning⟩

end Reader

end Json

end Interaction
