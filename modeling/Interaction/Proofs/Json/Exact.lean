import Interaction.Proofs.Json.Container
import Interaction.Proofs.Json.Numbers

/-!
This module contains what it means that a reader of JSON texts finds the values of trees: exactly
the trees that have a value, wherever they stand in a text. Lists of items and members are treated
here, whatever their items and members are.
-/

namespace Interaction

namespace Json

variable {α β ξ : Type} {gap lead text rest t u : List Char} {x : Char} {first : Bool}

theorem Gap.append {gap' : List Char} (h : Gap gap) (h' : Gap gap') : Gap (gap ++ gap') := by
  intro x mem
  exact (List.mem_append.1 mem).elim (h x) (h' x)

theorem gap_nil : Gap [] := List.forall_mem_nil _

theorem Lead.append {gap : List Char} (h : Lead first lead) (isGap : Gap gap) :
    Lead first (lead ++ gap) := by
  cases h with
  | first isGap' => exact .first (isGap'.append isGap)
  | next isGap' isGap'' =>
    rw [List.append_assoc, List.cons_append]
    exact .next isGap' (isGap''.append isGap)

theorem apart_nil : Apart [] := nofun

theorem apart_cons (h : x.isDigit = false ∧ x ≠ '.' ∧ x ≠ 'e' ∧ x ≠ 'E') (t : List Char) :
    Apart (x :: t) := by
  rintro y ⟨⟩
  exact h

theorem Gap.apart (isGap : Gap gap) (apart : Apart t) : Apart (gap ++ t) := by
  cases gap with
  | nil => exact apart
  | cons x gap =>
    have space := isGap x List.mem_cons_self
    apply apart_cons
    unfold Reader.isSpace at space
    simp only [Bool.or_eq_true, beq_iff_eq] at space
    rcases space with ((rfl | rfl) | rfl) | rfl <;> decide

theorem Row.apart {spells : ξ → List Char → Prop} {xs : List ξ} {row : List Char}
    (h : Row spells false xs row) (apart : Apart t) : Apart (row ++ t) := by
  cases h with
  | nil isGap => exact isGap.apart apart
  | cons isLead =>
    cases isLead with
    | next isGap =>
      rw [List.append_assoc, List.append_assoc]
      exact isGap.apart (apart_cons (by decide) _)

namespace Reader

variable {n : Nat} {r : Reader α} {mean : Tree → Option α} {c c' : Cursor} {a : α} {b : β}

theorem finds_token_gap (isGap : Gap gap) (flush : isSpace x = false) (t : List Char) :
    Finds peekToken (gap ++ x :: t) (some x) (x :: t) := by
  apply (finds_takeWhile isGap _).bind (finds_peek (x :: t))
  rintro y ⟨⟩
  exact flush

theorem finds_token_end (isGap : Gap gap) : Finds peekToken gap none [] := by
  have passed : Finds (takeWhile isSpace) (gap ++ []) gap [] := finds_takeWhile isGap nofun
  rw [List.append_nil] at passed
  exact passed.bind (finds_peek [])

/--
Whether a reader, in texts up to a length, finds what trees mean. It passes white space before the
text of a tree.
-/
structure ReadsWithin (n : Nat) (r : Reader α) (mean : Tree → Option α) : Prop where
  sound {c c' : Cursor} {a : α} (within : c.rest.length ≤ n) (found : r c = .ok (a, c')) :
    ∃ gap text tree, Gap gap ∧ tree.Spells text ∧ c.rest = gap ++ (text ++ c'.rest) ∧
      mean tree = some a
  complete {gap text rest : List Char} {tree : Tree} {a : α} (isGap : Gap gap)
    (spells : tree.Spells text) (meaning : mean tree = some a) (apart : Apart rest)
    (within : (gap ++ (text ++ rest)).length ≤ n) : Finds r (gap ++ (text ++ rest)) a rest

def Reads (r : Reader α) (mean : Tree → Option α) : Prop := ∀ n, ReadsWithin n r mean

/--
Whether a reader of items, in texts up to a length, finds what things mean that stand in a row. At
the end of the row it stops before or behind what closes the row.
-/
structure Lists (n : Nat) (item : Bool → Reader (Option β)) (spells : ξ → List Char → Prop)
    (mean : ξ → Option β) (ends : List Char → List Char → Prop) : Prop where
  ne_nil {x : ξ} {text : List Char} (h : spells x text) : text ≠ []
  apart {u rest : List Char} (h : ends u rest) : Apart u
  sound_none {first : Bool} {c c' : Cursor} (within : c.rest.length ≤ n)
    (found : item first c = .ok (none, c')) :
    ∃ gap u, Gap gap ∧ c.rest = gap ++ u ∧ ends u c'.rest
  sound_some {first : Bool} {c c' : Cursor} {b : β} (within : c.rest.length ≤ n)
    (found : item first c = .ok (some b, c')) :
    ∃ lead text x, Lead first lead ∧ spells x text ∧ c.rest = lead ++ (text ++ c'.rest) ∧
      mean x = some b
  complete_none {first : Bool} {gap u rest : List Char} (isGap : Gap gap) (h : ends u rest) :
    Finds (item first) (gap ++ u) none rest
  complete_some {first : Bool} {lead text rest : List Char} {x : ξ} {b : β}
    (isLead : Lead first lead) (h : spells x text) (meaning : mean x = some b)
    (apart : Apart rest) (within : (lead ++ (text ++ rest)).length ≤ n) :
    Finds (item first) (lead ++ (text ++ rest)) (some b) rest

namespace Lists

variable {item : Bool → Reader (Option β)} {spells : ξ → List Char → Prop} {mean : ξ → Option β}
variable {ends : List Char → List Char → Prop} {bs : List β} {xs : List ξ} {row : List Char}

theorem length_lt (h : Lists n item spells mean ends) {y : ξ} (spelled : spells y text)
    (lead rest : List Char) : rest.length < (lead ++ (text ++ rest)).length := by
  have := List.length_pos_iff.2 (h.ne_nil spelled)
  rw [List.length_append, List.length_append]
  omega

theorem sound (h : Lists n item spells mean ends) (within : c.rest.length ≤ n)
    (found : collect item c = .ok (bs, c')) :
    ∃ xs row u, Row spells true xs row ∧ c.rest = row ++ u ∧ ends u c'.rest ∧
      xs.mapM mean = some bs := by
  have collecting := collecting_of_collect (fun within found => by
    obtain ⟨lead, text, y, _, spelled, eq, _⟩ := h.sound_some within found
    rw [eq]
    exact h.length_lt spelled lead _) within found
  clear found
  generalize true = first at collecting ⊢
  induction collecting with
  | stop last =>
    obtain ⟨gap, u, isGap, eq, closes⟩ := h.sound_none within last
    exact ⟨[], gap, u, .nil isGap, eq, closes, rfl⟩
  | @item _ _ c₁ _ _ _ one _ ih =>
    obtain ⟨lead, text, y, isLead, spelled, eq, meaning⟩ := h.sound_some within one
    have less := h.length_lt spelled lead c₁.rest
    rw [← eq] at less
    obtain ⟨ys, row, u, isRow, eq', closes, meanings⟩ := ih (by omega)
    refine ⟨y :: ys, lead ++ (text ++ row), u, .cons isLead spelled isRow, ?_, closes, ?_⟩
    . rw [eq, eq']
      simp only [List.append_assoc]
    . exact mapM_cons_eq_some.2 ⟨_, _, meaning, meanings, rfl⟩

theorem complete (h : Lists n item spells mean ends) (isRow : Row spells true xs row)
    (meanings : xs.mapM mean = some bs) (closes : ends u rest) (within : (row ++ u).length ≤ n) :
    Finds (collect item) (row ++ u) bs rest := by
  suffices collected : Collected item true (row ++ u) bs rest from collected.finds
  generalize true = first at isRow ⊢
  induction isRow generalizing bs with
  | nil isGap =>
    cases meanings
    exact .stop (h.complete_none isGap closes)
  | @cons first y ys lead text row isLead spelled others ih =>
    obtain ⟨b, bs, meaning, meanings', rfl⟩ := mapM_cons_eq_some.1 meanings
    rw [List.append_assoc, List.append_assoc] at within ⊢
    have less := h.length_lt spelled lead (row ++ u)
    have apart := others.apart (h.apart closes)
    exact .item (h.complete_some isLead spelled meaning apart within) less
      (ih meanings' (by omega))

end Lists

end Reader

end Json

end Interaction
