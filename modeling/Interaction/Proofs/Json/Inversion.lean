import Interaction.Proofs.Json.Finding
import Interaction.Proofs.Json.Grammar

/-!
This module contains what a reader of JSON texts has passed, if it has found something.
-/

namespace Interaction

namespace Json

namespace Reader

variable {α β : Type} {r : Reader α} {f : α → Reader β} {a a' : α} {b : β} {c c' : Cursor}
variable {x : Option Char}

theorem bind_eq_ok :
    (r >>= f) c = .ok (b, c') ↔ ∃ a c₁, r c = .ok (a, c₁) ∧ f a c₁ = .ok (b, c') := by
  change (r c >>= fun p => f p.1 p.2) = _ ↔ _
  cases r c with
  | error e => simp [bind, Except.bind]
  | ok p =>
    simp only [Except.ok.injEq, bind, Except.bind]
    constructor
    . intro h
      exact ⟨p.1, p.2, rfl, h⟩
    . rintro ⟨a, c₁, rfl, h⟩
      exact h

theorem pure_eq_ok : (pure a : Reader α) c = .ok (a', c') ↔ a = a' ∧ c = c' := by
  change Except.ok (a, c) = .ok (a', c') ↔ _
  simp

theorem map_eq_ok {g : α → β} :
    (g <$> r) c = .ok (b, c') ↔ ∃ a, r c = .ok (a, c') ∧ g a = b := by
  rw [map_eq_pure_bind, bind_eq_ok]
  constructor
  . rintro ⟨a, c₁, found, done⟩
    obtain ⟨rfl, rfl⟩ := pure_eq_ok.1 done
    exact ⟨a, found, rfl⟩
  . rintro ⟨a, found, rfl⟩
    exact ⟨a, c', found, pure_eq_ok.2 ⟨rfl, rfl⟩⟩

theorem peek_eq_ok : peek c = .ok (x, c') ↔ c.rest.head? = x ∧ c = c' := by
  change Except.ok (c.rest.head?, c) = .ok (x, c') ↔ _
  simp

theorem head_of_peek {f : Option Char → Reader β} (h : (peek >>= f) c = .ok (b, c')) :
    ∃ x, c.rest.head? = x ∧ f x c = .ok (b, c') := ⟨c.rest.head?, rfl, h⟩

theorem rest_of_advance {y : Char} {r : Reader α} (head : c.rest.head? = some y)
    (h : (do advance; r) c = .ok (a, c')) :
    ∃ c₁, c.rest = y :: c₁.rest ∧ r c₁ = .ok (a, c') := by
  obtain ⟨u, c₁, passed, found⟩ := bind_eq_ok.1 h
  cases passed
  obtain ⟨t, eq⟩ := List.head?_eq_some_iff.1 head
  exact ⟨c.next, by rw [Cursor.rest_next eq, eq], found⟩

theorem rest_of_takeWhile {p : Char → Bool} {taken : List Char}
    (h : takeWhile p c = .ok (taken, c')) :
    c.rest = taken ++ c'.rest ∧ (∀ y ∈ taken, p y = true) ∧
      ∀ y, c'.rest.head? = some y → p y = false := by
  cases h
  rw [Parser.rest_forward_takeWhile]
  refine ⟨List.takeWhile_append_dropWhile.symm, List.all_eq_true.1 List.all_takeWhile, ?_⟩
  intro y head
  have stop := List.head?_dropWhile_not p c.rest
  rw [head] at stop
  simpa using stop

theorem rest_of_peekToken {f : Option Char → Reader β} (h : (peekToken >>= f) c = .ok (b, c')) :
    ∃ gap c₁ x, Gap gap ∧ c.rest = gap ++ c₁.rest ∧ c₁.rest.head? = x ∧ f x c₁ = .ok (b, c') := by
  obtain ⟨x, c₁, token, found⟩ := bind_eq_ok.1 h
  obtain ⟨gap, c₂, passed, peeked⟩ := bind_eq_ok.1 token
  obtain ⟨eq, all, _⟩ := rest_of_takeWhile passed
  obtain ⟨head, rfl⟩ := peek_eq_ok.1 peeked
  exact ⟨gap, c₂, x, all, eq, head, found⟩

theorem rest_of_letters {text : List Char} {u : Unit} (h : letters text c = .ok (u, c')) :
    c.rest = text ++ c'.rest := by
  induction text generalizing c with
  | nil =>
    obtain ⟨_, rfl⟩ := pure_eq_ok.1 h
    rfl
  | cons y text ih =>
    obtain ⟨z, head, found⟩ := head_of_peek h
    split at found
    . cases found
    split at found
    . next same =>
      obtain ⟨c₁, eq, rest⟩ := rest_of_advance head found
      rw [eq, ih rest, same]
      rfl
    . cases found

inductive Collecting (item : Bool → Reader (Option α)) :
    Bool → Cursor → List α → Cursor → Prop where
  | stop {first : Bool} {c c' : Cursor} (none : item first c = .ok (none, c')) :
    Collecting item first c [] c'
  | item {first : Bool} {c c₁ c' : Cursor} {a : α} {as : List α}
    (one : item first c = .ok (some a, c₁)) (others : Collecting item false c₁ as c') :
    Collecting item first c (a :: as) c'

theorem collecting_of_collectAfter {item : Bool → Reader (Option α)} {n : Nat} {found as : List α}
    (moves : ∀ {first c a c'}, c.rest.length ≤ n → item first c = .ok (some a, c') →
      c'.rest.length < c.rest.length)
    (within : c.rest.length ≤ n) (h : collectAfter item found c = .ok (as, c')) :
    ∃ new, as = found.reverse ++ new ∧ Collecting item found.isEmpty c new c' := by
  induction size : c.left using Nat.strongRecOn generalizing c found with
  | _ size' ih =>
    rw [collectAfter] at h
    split at h
    . cases h
    . next none =>
      cases h
      exact ⟨[], (List.append_nil _).symm, .stop none⟩
    . next a c₁ some =>
      have less := moves within some
      have less' : c₁.left < c.left := Cursor.left_lt_iff.2 less
      rw [if_pos less'] at h
      obtain ⟨new, eq, others⟩ := ih _ (size ▸ less') (by omega) h rfl
      refine ⟨a :: new, ?_, .item some others⟩
      rw [eq, List.reverse_cons, List.append_assoc]
      rfl

theorem collecting_of_collect {item : Bool → Reader (Option α)} {n : Nat} {as : List α}
    (moves : ∀ {first c a c'}, c.rest.length ≤ n → item first c = .ok (some a, c') →
      c'.rest.length < c.rest.length)
    (within : c.rest.length ≤ n) (h : collect item c = .ok (as, c')) :
    Collecting item true c as c' := by
  obtain ⟨new, rfl, collecting⟩ := collecting_of_collectAfter moves within h
  exact collecting

end Reader

end Json

end Interaction
