import Interaction.Json.Reader
import Interaction.Proofs.Parsing.Result

/-!
This module contains what the readers of JSON texts find: a value at the front of a text, and the
text after it. What a reader finds does not depend on the place of the text.
-/

namespace Interaction

theorem Cursor.rest_next {c : Cursor} {x : Char} {t : List Char} (eq : c.rest = x :: t) :
    c.next.rest = t := by
  unfold next
  split
  . next none => simp [none] at eq
  . next some =>
    rw [some] at eq
    exact (List.cons.inj eq).2

namespace Json

namespace Reader

variable {α β : Type} {r : Reader α} {f : α → Reader β} {a : α} {b : β} {x : Char}
variable {t mid rest : List Char}

def Finds (r : Reader α) (t : List Char) (a : α) (rest : List Char) : Prop :=
  ∀ c : Cursor, c.rest = t → ∃ c', r c = .ok (a, c') ∧ c'.rest = rest

theorem finds_pure (a : α) (t : List Char) : Finds (pure a) t a t :=
  fun c eq => ⟨c, rfl, eq⟩

theorem Finds.bind (first : Finds r t a mid) (last : Finds (f a) mid b rest) :
    Finds (r >>= f) t b rest := by
  intro c eq
  obtain ⟨c', found, eq'⟩ := first c eq
  obtain ⟨c'', found', eq''⟩ := last c' eq'
  refine ⟨c'', ?_, eq''⟩
  change (r c >>= fun p => f p.1 p.2) = _
  rw [found]
  exact found'

theorem Finds.map (found : Finds r t a rest) (f : α → β) : Finds (f <$> r) t (f a) rest := by
  rw [map_eq_pure_bind]
  exact found.bind (finds_pure _ _)

theorem finds_peek (t : List Char) : Finds peek t t.head? t := by
  rintro c rfl
  exact ⟨c, rfl, rfl⟩

theorem finds_advance (x : Char) (t : List Char) : Finds advance (x :: t) () t :=
  fun c eq => ⟨c.next, rfl, Cursor.rest_next eq⟩

theorem Finds.advance {r : Reader α} (found : Finds r t a rest) :
    Finds (do advance; r) (x :: t) a rest :=
  (finds_advance x t).bind found

theorem finds_takeWhile {p : Char → Bool} {taken : List Char} (all : ∀ x ∈ taken, p x = true)
    (stop : ∀ x, rest.head? = some x → p x = false) :
    Finds (takeWhile p) (taken ++ rest) taken rest := by
  have whole : (taken ++ rest).takeWhile p = taken := by
    rw [List.takeWhile_append_of_pos all]
    cases rest with
    | nil => simp
    | cons y rest => simp [stop y rfl]
  intro c eq
  refine ⟨c.forward taken.length, ?_, ?_⟩
  . unfold takeWhile Cursor.takeWhile
    simp only [eq, whole]
  . simp [Cursor.forward, eq]

theorem finds_token (x : Char) (t : List Char) (h : isSpace x = false) :
    Finds peekToken (x :: t) (some x) (x :: t) := by
  have none : Finds (takeWhile isSpace) ([] ++ x :: t) [] (x :: t) := by
    apply finds_takeWhile (List.forall_mem_nil _)
    intro y eq
    cases eq
    exact h
  exact none.bind (finds_peek (x :: t))

theorem finds_token_nil : Finds peekToken [] none [] := by
  have none : Finds (takeWhile isSpace) ([] ++ []) [] [] :=
    finds_takeWhile (List.forall_mem_nil _) nofun
  exact none.bind (finds_peek [])

theorem finds_letters (text rest : List Char) : Finds (letters text) (text ++ rest) () rest := by
  induction text with
  | nil => exact finds_pure () rest
  | cons x text ih =>
    unfold letters
    apply (finds_peek _).bind
    simp only [List.cons_append, List.head?_cons, if_true]
    exact ih.advance

/--
Whether an item reader finds things, one after another, up to a place where it finds none; it is
told which one is the first.
-/
inductive Collected (item : Bool → Reader (Option α)) :
    Bool → List Char → List α → List Char → Prop where
  | stop {first : Bool} {t rest : List Char} : Finds (item first) t none rest →
    Collected item first t [] rest
  | item {first : Bool} {t mid rest : List Char} {a : α} {as : List α} :
    Finds (item first) t (some a) mid → mid.length < t.length → Collected item false mid as rest →
    Collected item first t (a :: as) rest

theorem Collected.finds_collectAfter {item : Bool → Reader (Option α)} {first : Bool} {as : List α}
    (h : Collected item first t as rest) (found : List α) (eq : found.isEmpty = first) :
    Finds (collectAfter item found) t (found.reverse ++ as) rest := by
  -- what was found before stands in reverse, as the last thing found comes first
  induction h generalizing found with
  | stop last =>
    intro c at_
    obtain ⟨c', none, at'⟩ := last c at_
    refine ⟨c', ?_, at'⟩
    rw [collectAfter, eq, none]
    simp
  | @item first t mid rest a as step less _ ih =>
    intro c at_
    obtain ⟨c', some, at'⟩ := step c at_
    obtain ⟨c'', others, at''⟩ := ih (a :: found) rfl c' at'
    refine ⟨c'', ?_, at''⟩
    have moved : c'.left < c.left := by
      rw [Cursor.left_lt_iff, at_, at']
      exact less
    rw [collectAfter, eq, some]
    simp only [if_pos moved]
    rw [others]
    simp

theorem Collected.finds {item : Bool → Reader (Option α)} {as : List α}
    (h : Collected item true t as rest) : Finds (collect item) t as rest :=
  h.finds_collectAfter [] rfl

theorem run'_of_finds (found : Finds r t a rest) :
    StateT.run' r (Cursor.ofText t) = Except.ok a := by
  obtain ⟨c, eq, _⟩ := found (Cursor.ofText t) rfl
  unfold StateT.run'
  rw [eq]
  rfl

theorem run_of_finds (found : Finds r t a []) : r.run t = .ok a := by
  unfold run
  apply run'_of_finds
  apply found.bind
  exact finds_token_nil.bind (finds_pure a [])

def Delimited (t : List Char) : Prop :=
  t = [] ∨ ∃ x rest, t = x :: rest ∧ (x = ',' ∨ x = ']' ∨ x = '\x7d')

def Recovers (r : Reader α) (text : List Char) (a : α) : Prop :=
  ∀ rest, Delimited rest → Finds r (text ++ rest) a rest

theorem Recovers.run {text : List Char} (h : Recovers r text a) : r.run text = .ok a := by
  have found := h [] (.inl rfl)
  rw [List.append_nil] at found
  exact run_of_finds found

theorem Recovers.store {text : List Char} (h : Recovers r text a) (f : α → β) :
    Recovers (do let a ← r; pure (f a)) text (f a) := by
  intro rest delimited
  exact (h rest delimited).bind (finds_pure (f a) rest)

theorem Recovers.nullable (h : Recovers r ('\x7b' :: t) a) :
    Recovers (nullable r) ('\x7b' :: t) (some a) := by
  intro rest delimited
  apply (finds_token '\x7b' _ rfl).bind
  exact (h rest delimited).map some

end Reader

end Json

end Interaction
