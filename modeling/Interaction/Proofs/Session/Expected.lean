import Interaction.Proofs.Event
import Interaction.Proofs.Session.Verdict

/-!
This module contains what a session says about the next event: the expected events are exactly those
that may come next, in ascending order, and after an illegal event none is expected any more.
-/

namespace Interaction

namespace Session

open Automaton

variable {s : Session} {l : Language} {e : Event} {v w : List Event}

theorem mem_expected_iff :
    e ∈ s.expected ↔ ∃ p ∈ s.active, ∃ q, s.automaton.HasEdge p (some e) q := by
  unfold expected
  simp only [Event.mem_ascending, List.mem_flatMap, mem_eventsFrom]

theorem pairwise_expected (s : Session) : s.expected.Pairwise (· < ·) :=
  Event.pairwise_ascending _

theorem verdict_push_ne_unexpected_iff (closed : s.automaton.Closed) :
    (s.push e).verdict ≠ .unexpected ↔ e ∈ s.expected := by
  rw [Ne, verdict_eq_unexpected_iff, mem_expected_iff, List.eq_nil_iff_forall_not_mem]
  push Not
  simp only [mem_active_push closed]
  constructor
  . rintro ⟨_, ⟨p, active, p', edge, _⟩, _⟩
    exact ⟨p, active, p', edge⟩
  . rintro ⟨p, active, p', edge⟩
    obtain ⟨q, silent, rests⟩ := exists_rests closed p'
    exact ⟨q, ⟨p, active, p', edge, .of_silent silent⟩, rests⟩

theorem expected_eq_nil (none : s.active = []) : s.expected = [] := by
  unfold expected
  rw [none]
  rfl

theorem closed_after : (after l w).automaton.Closed := by
  unfold after
  rw [automaton_follow]
  exact compile_closed l

theorem follow_after : (after l w).follow v = after l (w ++ v) := follow_append.symm

theorem push_after : (after l w).push e = after l (w ++ [e]) := by
  rw [← follow_after, follow_cons, follow_nil]

theorem verdict_follow_eq_unexpected (illegal : (after l w).verdict = .unexpected)
    (v : List Event) : ((after l w).follow v).verdict = .unexpected := by
  by_contra legal
  rw [follow_after] at legal
  exact verdict_after_ne_unexpected_mono (List.prefix_append w v) legal illegal

/--
After any events, exactly the expected events are legal. They are listed in ascending order, the
inputs before the outputs and then by channel, each one once. After illegal events nothing is
expected, no node is active, and all that follows is illegal.
-/
theorem push_legal_iff_expected (l : Language) (w : List Event) :
    (∀ e, ((after l w).push e).verdict ≠ .unexpected ↔ e ∈ (after l w).expected) ∧
    (after l w).expected.Pairwise (fun e e' =>
      (e.direction = .input ∧ e'.direction = .output) ∨
        (e.direction = e'.direction ∧ e.channel < e'.channel)) ∧
    (after l w).expected.Nodup ∧
    ((after l w).verdict = .unexpected →
      (after l w).expected = [] ∧ (after l w).active = [] ∧
        ∀ v, ((after l w).follow v).verdict = .unexpected) := by
  have ascending := pairwise_expected (after l w)
  refine ⟨?_, ?_, ?_, ?_⟩
  . intro e
    exact verdict_push_ne_unexpected_iff closed_after
  . exact ascending.imp Event.lt_iff.1
  . rw [List.nodup_iff_pairwise_ne]
    apply ascending.imp
    rintro e _ lt rfl
    exact Event.lt_irrefl e lt
  . intro illegal
    have none := verdict_eq_unexpected_iff.1 illegal
    exact ⟨expected_eq_nil none, none, verdict_follow_eq_unexpected illegal⟩

theorem push_legal_iff_expected_answer :
    let l : Language := .zeroOrMore (.sequence [.input "request", .output "answer"])
    (after l [.output "answer"]).verdict = .unexpected ∧
      (after l [.output "answer"]).expected = [] ∧
      ((after l [.output "answer"]).follow [.input "request", .output "answer"]).verdict =
        .unexpected := by
  intro l
  have illegal : (after l [.output "answer"]).verdict = .unexpected := by cbv
  obtain ⟨expected, _, later⟩ := (push_legal_iff_expected l [.output "answer"]).2.2.2 illegal
  exact ⟨illegal, expected, later _⟩

end Session

end Interaction
