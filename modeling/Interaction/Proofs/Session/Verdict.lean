import Interaction.Proofs.Automaton.Flow
import Interaction.Proofs.Session.Active

/-!
This module contains what the verdicts of a session on a compiled language mean: a series is illegal
exactly if no series of the language's flow begins with it.
-/

namespace Interaction

namespace Session

open Automaton Computability

variable {l : Language} {w : List Event}

def after (l : Language) (w : List Event) : Session := (new (compile l)).follow w

theorem verdict_after_eq_enough_iff :
    (after l w).verdict = .enough ↔ w ∈ l.flow.total ∧ (compile l).Rests 1 := by
  unfold after
  rw [verdict_follow_eq_enough_iff (compile_closed l) (start_lt_nodes_compile l), ← paths_compile]
  rfl

theorem verdict_after_eq_unexpected_iff :
    (after l w).verdict = .unexpected ↔ ¬∃ q, (compile l).Path 0 w q := by
  unfold after
  rw [verdict_follow_eq_unexpected_iff (compile_closed l) (start_lt_nodes_compile l)]
  rfl

theorem verdict_after_ne_unexpected_mono {u : List Event} (le : w <+: u)
    (legal : (after l u).verdict ≠ .unexpected) : (after l w).verdict ≠ .unexpected := by
  rw [Ne, verdict_after_eq_unexpected_iff, not_not] at *
  obtain ⟨q, path⟩ := legal
  obtain ⟨v, rfl⟩ := le
  obtain ⟨p, before, _⟩ := Path.split path
  exact ⟨p, before⟩

theorem verdict_after_nil_ne_unexpected : (after l []).verdict ≠ .unexpected := by
  rw [Ne, verdict_after_eq_unexpected_iff, not_not]
  exact ⟨0, .done 0⟩

theorem exists_path_iff (each : l.Each (· ≠ .either [])) :
    (∃ q, (compile l).Path 0 w q) ↔ ∃ u ∈ l.flow.total, w <+: u := by
  simp only [← paths_compile]
  constructor
  . rintro ⟨q, path⟩
    have inside := Closed.lt_of_path (compile_closed l) path (start_lt_nodes_compile l)
    -- without an empty choice, the end can still be reached
    obtain ⟨v, rest⟩ := exists_path_accept each inside
    exact ⟨w ++ v, path.append rest, List.prefix_append w v⟩
  . rintro ⟨_, path, v, rfl⟩
    obtain ⟨q, before, _⟩ := Path.split path
    exact ⟨q, before⟩

theorem verdict_after_ne_unexpected_of_mem (h : w ∈ l.flow.total) :
    (after l w).verdict ≠ .unexpected := by
  rw [Ne, verdict_after_eq_unexpected_iff, not_not]
  rw [← paths_compile] at h
  exact ⟨1, h⟩

/--
The paths of a compiled language are labelled with the series of its flow; if the language has no
empty choice, these series also say when a session finds its events illegal. Nothing that begins a
series of the ordinary meaning is illegal.
-/
theorem flow_determines_unexpected (l : Language) :
    (∀ w, (compile l).Path (compile l).start w (compile l).accept ↔
      w ∈ l.flow.across * l.flow.around∗) ∧
    (l.Each (· ≠ .either []) →
      ∀ w, (after l w).verdict = .unexpected ↔
        ¬∃ u ∈ l.flow.across * l.flow.around∗, w <+: u) ∧
    ∀ u ∈ l.series, ∀ w, w <+: u → (after l w).verdict ≠ .unexpected := by
  refine ⟨?_, ?_, ?_⟩
  . intro w
    have same : w ∈ (compile l).paths 0 1 ↔ w ∈ l.flow.total := by rw [paths_compile]
    exact same
  . intro each w
    rw [verdict_after_eq_unexpected_iff]
    exact not_congr (exists_path_iff each)
  . intro u mem w le
    apply verdict_after_ne_unexpected_mono le
    exact verdict_after_ne_unexpected_of_mem (Language.series_le_total l mem)

theorem not_unexpected_before_sequence :
    (after (.zeroOrMore (.sequence [.input "a", .zeroOrMore (.output "b")]))
      [.output "b"]).verdict ≠ .unexpected := by
  rw [Ne, (flow_determines_unexpected _).2.1, not_not]
  . refine ⟨[.output "b"], ?_, List.prefix_rfl⟩
    simp only [Language.flow, Language.flowOfParts, Language.input, Language.output, one_mul]
    have once : [Event.output "b"] ∈ ({[Event.output "b"]} + 0 : SeriesSet Event) := .inl rfl
    have rounds : ∀ S : SeriesSet Event, S ≤ S∗ := fun S => le_kstar
    exact rounds _ (.inr once)
  . simp [Language.Each, Language.EachOf, Language.input, Language.output]

end Session

end Interaction
