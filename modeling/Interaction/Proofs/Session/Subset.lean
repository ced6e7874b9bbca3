import Interaction.Proofs.Automaton.Walk
import Interaction.Proofs.Session.Verdict

/-!
This module contains the description of a session's active nodes by paths: sessions follow all paths
at once, without the nodes that are only passed through.
-/

namespace Interaction

namespace Session

open Relation Automaton

variable {a : Automaton} {l : Language} {w : List Event}

theorem ascending_settle (a : Automaton) (reached : List Nat) :
    (settle a reached).Pairwise (· < ·) :=
  List.pairwise_lt_range.filter _

theorem ascending_after (l : Language) (w : List Event) :
    (after l w).active.Pairwise (· < ·) := by
  cases w using List.reverseRecOn with
  | nil => exact ascending_settle _ _
  | append_singleton w e =>
    unfold after
    rw [follow_append]
    exact ascending_settle _ _

theorem not_rests_iff {q : Nat} : ¬a.Rests q ↔
    (∃ r, a.Silent q r) ∧ (∀ e r, ¬a.HasEdge q (some e) r) ∧ ¬TransGen a.Silent q q := by
  unfold Rests
  push Not
  constructor
  . rintro ⟨⟨label, r, edge⟩, noEvent, noCycle⟩
    cases label with
    | none => exact ⟨⟨r, edge⟩, noEvent, noCycle⟩
    | some e => exact absurd edge (noEvent e r)
  . rintro ⟨⟨r, edge⟩, noEvent, noCycle⟩
    exact ⟨⟨none, r, edge⟩, noEvent, noCycle⟩

/--
The active nodes after a series of events are those that paths with these events lead to, without
the nodes that have silent edges only and lie on no cycle of these; the loops that find them end. So
a session is complete after the series on the paths from the start to the end, unless the end itself
is such a node; then no session is ever complete.
-/
theorem active_of_paths (l : Language) :
    (∀ reached, ∃ n, n ≤ (compile l).nodes ∧
      Ends (compile l).exploreTurn n ((compile l).walkFrom reached)
        ((compile l).closure reached)) ∧
    (∀ node, ∃ n, n ≤ (compile l).nodes + 1 ∧
      Ends ((compile l).searchTurn node) n ⟨[node], Array.replicate (compile l).nodes false⟩
        ((compile l).onSilentCycle node)) ∧
    (∀ w, (after l w).active.Pairwise (· < ·) ∧ ∀ q, q ∈ (after l w).active ↔
      (compile l).Path (compile l).start w q ∧
        ((∀ label r, ¬(compile l).HasEdge q label r) ∨
          (∃ e r, (compile l).HasEdge q (some e) r) ∨ TransGen (compile l).Silent q q)) ∧
    ((∀ w, (after l w).verdict = .enough ↔
        (compile l).Path (compile l).start w (compile l).accept) ∨
      ((∃ r, (compile l).Silent (compile l).accept r) ∧
        (∀ e r, ¬(compile l).HasEdge (compile l).accept (some e) r) ∧
        ¬TransGen (compile l).Silent (compile l).accept (compile l).accept ∧
        ∀ w, (after l w).verdict ≠ .enough)) := by
  have closed : (compile l).Closed := compile_closed l
  have start := start_lt_nodes_compile l
  refine ⟨closure_ends _, onSilentCycle_ends _, ?_, ?_⟩
  . intro w
    exact ⟨ascending_after l w, fun q => mem_active_follow_new closed start⟩
  . have enough (w : List Event) : (after l w).verdict = .enough ↔
        (compile l).Path (compile l).start w (compile l).accept ∧
          (compile l).Rests (compile l).accept := verdict_follow_eq_enough_iff closed start
    by_cases rests : (compile l).Rests (compile l).accept
    . left
      intro w
      rw [enough, and_iff_left rests]
    . obtain ⟨silent, noEvent, noCycle⟩ := not_rests_iff.1 rests
      right
      refine ⟨silent, noEvent, noCycle, ?_⟩
      intro w complete
      exact rests ((enough w).1 complete).2

end Session

end Interaction
