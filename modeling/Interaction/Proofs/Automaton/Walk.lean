import Interaction.Automaton.Basic

/-!
This module contains the proof that the loops of the walks along silent edges end: each turn visits
a node, and a node comes to be visited only once.
-/

namespace Interaction

section

variable {σ β : Type}

/--
Whether a loop ends with a result after some turns. A turn changes the state or gives the result.
-/
inductive Ends (turn : σ → σ ⊕ β) : Nat → σ → β → Prop where
  | stop {s : σ} {b : β} (h : turn s = .inr b) : Ends turn 0 s b
  | next {n : Nat} {s s' : σ} {b : β} (h : turn s = .inl s') (others : Ends turn n s' b) :
    Ends turn (n + 1) s b

theorem exists_ends {turn : σ → σ ⊕ β} (size : σ → Nat) (result : σ → β)
    (next : ∀ s s', turn s = .inl s' → size s' < size s ∧ result s = result s')
    (stop : ∀ s b, turn s = .inr b → result s = b) (s : σ) :
    ∃ n, n ≤ size s ∧ Ends turn n s (result s) := by
  match here : turn s with
  | .inr b =>
    rw [stop s b here]
    exact ⟨0, Nat.zero_le _, .stop here⟩
  | .inl s' =>
    obtain ⟨smaller, same⟩ := next s s' here
    obtain ⟨n, le, ends⟩ := exists_ends size result next stop s'
    rw [same]
    exact ⟨n + 1, by omega, .next here ends⟩
termination_by size s

end

namespace Automaton

variable (a : Automaton) (node : Nat) (w : Walk)

def exploreTurn : Walk → Walk ⊕ Array Bool
  | ⟨[], marks⟩ => .inr marks
  | ⟨next :: todo, marks⟩ => .inl (a.visit next todo marks)

def searchTurn : Walk → Walk ⊕ Bool
  | ⟨[], _⟩ => .inr false
  | ⟨next :: todo, marks⟩ =>
    if (a.silentTargets next).contains node then .inr true else .inl (a.visit next todo marks)

theorem explore_ends : ∃ n, n ≤ w.size ∧ Ends a.exploreTurn n w (a.explore w) := by
  apply exists_ends
  . rintro ⟨_ | ⟨next, todo⟩, marks⟩ w' turn
    . cases turn
    . cases turn
      exact ⟨size_visit_lt a next todo marks, by rw [explore]⟩
  . rintro ⟨_ | ⟨next, todo⟩, marks⟩ b turn
    . cases turn
      rw [explore]
    . cases turn

theorem comesTo_ends : ∃ n, n ≤ w.size ∧ Ends (a.searchTurn node) n w (a.comesTo node w) := by
  apply exists_ends
  . rintro ⟨_ | ⟨next, todo⟩, marks⟩ w' turn
    . cases turn
    . rw [searchTurn] at turn
      split at turn
      . cases turn
      . next other =>
        cases turn
        exact ⟨size_visit_lt a next todo marks, by rw [comesTo, if_neg other]⟩
  . rintro ⟨_ | ⟨next, todo⟩, marks⟩ b turn
    . cases turn
      rw [comesTo]
    . rw [searchTurn] at turn
      split at turn
      . next here =>
        cases turn
        rw [comesTo, if_pos here]
      . cases turn

theorem closure_ends (nodes : List Nat) :
    ∃ n, n ≤ a.nodes ∧ Ends a.exploreTurn n (a.walkFrom nodes) (a.closure nodes) := by
  have ends := explore_ends a (a.walkFrom nodes)
  have size : (a.walkFrom nodes).size = a.nodes := by
    unfold walkFrom
    rw [Walk.size_findAll, Walk.size, List.length_nil, Array.count_replicate_self, Nat.zero_add]
  rwa [size] at ends

theorem onSilentCycle_ends : ∃ n, n ≤ a.nodes + 1 ∧
    Ends (a.searchTurn node) n ⟨[node], Array.replicate a.nodes false⟩ (a.onSilentCycle node) := by
  have ends := comesTo_ends a node ⟨[node], Array.replicate a.nodes false⟩
  rwa [Walk.size, List.length_singleton, Array.count_replicate_self, Nat.add_comm] at ends

end Automaton

end Interaction
