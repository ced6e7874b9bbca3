import Interaction.Proofs.Automaton.Begun
import Interaction.Proofs.Language.Regrouping
import Interaction.Proofs.Session.Expected

/-!
This module contains which languages can be interchanged without a session noticing: regrouped ones,
and repetitions and their expansions. All that a session says is told by the legal series, by the
flow across a language, and by what leaves its end.
-/

namespace Interaction

namespace Session

open Automaton Computability

variable {l l' : Language} {w : List Event} {label : Option Event}

theorem verdict_after_ne_unexpected_iff :
    (after l w).verdict ≠ .unexpected ↔ w ∈ l.legal := by
  rw [Ne, verdict_after_eq_unexpected_iff, not_not, ← onward_compile]
  rfl

theorem mem_expected_after_iff_legal {e : Event} :
    e ∈ (after l w).expected ↔ w ++ [e] ∈ l.legal := by
  rw [← verdict_push_ne_unexpected_iff closed_after, push_after, verdict_after_ne_unexpected_iff]

theorem exists_hasEdge_accept_iff :
    (∃ q, (compile l).HasEdge 1 label q) ↔ label ∈ l.turns :=
  hasEdge_accept_iff.trans Language.mem_turns_iff.symm

theorem rests_accept_iff_turns : (compile l).Rests 1 ↔
    (∀ label, label ∉ l.turns) ∨ (∃ e, some e ∈ l.turns) ∨ [] ∈ l.flow.around := by
  simp only [← exists_hasEdge_accept_iff, ← silentCycle_accept_iff, not_exists]
  rfl

/-- Whether sessions on two languages make the same statements after the same events. -/
structure Interchangeable (l l' : Language) : Prop where
  legal : l.legal = l'.legal
  total : l.flow.total = l'.flow.total
  turns : ∀ label, label ∈ l.turns ↔ label ∈ l'.turns
  around : l.flow.around = l'.flow.around

namespace Interchangeable

theorem of_alike (h : l.Alike l') : Interchangeable l l' := by
  refine ⟨?_, ?_, h.turns, ?_⟩
  . unfold Language.legal
    rw [h.flow, h.begun]
  . rw [h.flow]
  . rw [h.flow]

theorem rests_iff (h : Interchangeable l l') : (compile l).Rests 1 ↔ (compile l').Rests 1 := by
  simp only [rests_accept_iff_turns, h.turns, h.around]

theorem verdict_eq (h : Interchangeable l l') (w : List Event) :
    (after l w).verdict = (after l' w).verdict := by
  have unexpected : (after l w).verdict = .unexpected ↔ (after l' w).verdict = .unexpected := by
    rw [← not_iff_not, ← Ne, ← Ne, verdict_after_ne_unexpected_iff,
      verdict_after_ne_unexpected_iff, h.legal]
  have enough : (after l w).verdict = .enough ↔ (after l' w).verdict = .enough := by
    rw [verdict_after_eq_enough_iff, verdict_after_eq_enough_iff, h.total, h.rests_iff]
  cases first : (after l w).verdict <;> cases second : (after l' w).verdict <;> simp_all

theorem expected_eq (h : Interchangeable l l') (w : List Event) :
    (after l w).expected = (after l' w).expected := by
  apply Event.eq_of_mem_iff (pairwise_expected _) (pairwise_expected _)
  intro e
  rw [mem_expected_after_iff_legal, mem_expected_after_iff_legal, h.legal]

end Interchangeable

/--
Flattening sequences in sequences and choices in choices, and putting branches in another order, at
any depth and any number of times, changes no verdict and no expected event.
-/
theorem regrouped_agree (l l' : Language) (regroups : Relation.ReflTransGen Language.Regroups l l')
    (each : l.Each (· ≠ .sequence [])) (w : List Event) :
    (after l w).verdict = (after l' w).verdict ∧ (after l w).expected = (after l' w).expected := by
  have interchangeable := Interchangeable.of_alike (Language.alike_of_regroups regroups each)
  exact ⟨interchangeable.verdict_eq w, interchangeable.expected_eq w⟩

theorem regrouped_agree_repeated :
    let l : Language := .oneOrMore (.sequence [.input "a",
      .sequence [.either [.output "b", .zeroOrMore (.output "c")], .output "d"]])
    let l' : Language := .oneOrMore (.sequence [.input "a",
      .either [.zeroOrMore (.output "c"), .output "b"], .output "d"])
    Relation.ReflTransGen Language.Regroups l l' ∧ l.Each (· ≠ .sequence []) ∧
      (after l [.input "a", .output "c"]).verdict = (after l' [.input "a", .output "c"]).verdict ∧
      (after l [.input "a", .output "c"]).expected =
        (after l' [.input "a", .output "c"]).expected := by
  intro l l'
  have flatten := Language.Regroups.flattenSequence [.input "a"]
    [.either [.output "b", .zeroOrMore (.output "c")], .output "d"] []
  have swap := Language.Regroups.inSequence [.input "a"] [.output "d"]
    (.permute (List.Perm.swap (.zeroOrMore (.output "c")) (.output "b") []))
  have regroups : Relation.ReflTransGen Language.Regroups l l' :=
    .tail (.single flatten.inOneOrMore) swap.inOneOrMore
  have each : l.Each (· ≠ .sequence []) := by
    simp [l, Language.Each, Language.EachOf, Language.input, Language.output]
  exact ⟨regroups, each, regrouped_agree l l' regroups each _⟩

section Expansion

variable {S R : SeriesSet Event}

theorem kstar_mul_add_kstar : R∗ * (S + R)∗ = (S + R)∗ := by
  apply le_antisymm
  . calc
      R∗ * (S + R)∗ ≤ (S + R)∗ * (S + R)∗ := mul_le_mul' (kstar_mono le_add_self) le_rfl
      _ = (S + R)∗ := kstar_mul_kstar _
  . exact le_mul_of_one_le_left' one_le_kstar

theorem one_add_mul_add_kstar : (1 + S) * (S + R)∗ = (S + R)∗ := by
  apply le_antisymm
  . rw [add_mul, one_mul]
    apply add_le le_rfl
    exact (mul_le_mul' le_self_add le_rfl).trans mul_kstar_le_kstar
  . exact le_mul_of_one_le_left' le_self_add

variable (x : Language)

theorem total_oneOrMore :
    (Language.sequence [x, .zeroOrMore x]).flow.total = (Language.oneOrMore x).flow.total := by
  simp only [Language.Flow.total, Language.flow, Language.flowOfParts, mul_one, mul_assoc,
    kstar_mul_add_kstar]

theorem total_zeroOrMore :
    (Language.optional (.oneOrMore x)).flow.total = (Language.zeroOrMore x).flow.total := by
  simp only [Language.Flow.total, Language.flow, one_mul, one_add_mul_add_kstar]

theorem interchangeable_oneOrMore :
    Interchangeable (.oneOrMore x) (.sequence [x, .zeroOrMore x]) := by
  refine ⟨?_, (total_oneOrMore x).symm, fun _ => Iff.rfl, rfl⟩
  let rounds := (Language.oneOrMore x).flow.total
  let further : SeriesSet Event := 1 + (x.begun.across + x.begun.around)
  -- what is begun at the node between the parts can also be begun at the end
  have between : x.flow.total * (x.begun.around + 1) ≤ rounds * further := by
    apply mul_le_mul'
    . exact mul_le_mul' le_rfl (kstar_mono le_add_self)
    . rw [add_comm]
      exact add_le_add_right le_add_self 1
  calc
    x.begun.across + rounds * further
      = x.begun.across + (x.flow.total * (x.begun.around + 1) + rounds * further) := by
        rw [add_eq_right_iff_le.2 between]
    _ = x.begun.across + x.flow.total * (x.begun.around + 1) +
          (Language.sequence [x, .zeroOrMore x]).flow.total * further := by
        rw [add_assoc, total_oneOrMore]

theorem interchangeable_zeroOrMore :
    Interchangeable (.zeroOrMore x) (.optional (.oneOrMore x)) := by
  refine ⟨?_, (total_zeroOrMore x).symm, fun _ => Iff.rfl, rfl⟩
  let rounds := (Language.zeroOrMore x).flow.total
  let further : SeriesSet Event := 1 + (x.begun.across + x.begun.around)
  have one_le : 1 ≤ rounds := one_le_mul le_rfl one_le_kstar
  have still : 1 ≤ rounds * further := one_le_mul one_le le_self_add
  -- what is begun before the first round can also be begun after it
  have begun : x.begun.across ≤ rounds * further :=
    le_mul_of_one_le_of_le one_le (le_self_add.trans le_add_self)
  calc
    1 + rounds * further = x.begun.across + rounds * further := by
      rw [add_eq_right_iff_le.2 still, add_eq_right_iff_le.2 begun]
    _ = x.begun.across + (Language.optional (.oneOrMore x)).flow.total * further := by
      rw [total_zeroOrMore]

end Expansion

/--
One or more rounds are one round and then any number of them, and any number of rounds is
optionally one or more: no verdict and no expected event tells them apart.
-/
theorem repetitions_agree (x : Language) (w : List Event) :
    ((after (.oneOrMore x) w).verdict = (after (.sequence [x, .zeroOrMore x]) w).verdict ∧
      (after (.oneOrMore x) w).expected = (after (.sequence [x, .zeroOrMore x]) w).expected) ∧
    ((after (.zeroOrMore x) w).verdict = (after (.optional (.oneOrMore x)) w).verdict ∧
      (after (.zeroOrMore x) w).expected = (after (.optional (.oneOrMore x)) w).expected) := by
  have plus := interchangeable_oneOrMore x
  have star := interchangeable_zeroOrMore x
  exact ⟨⟨plus.verdict_eq w, plus.expected_eq w⟩, star.verdict_eq w, star.expected_eq w⟩

end Session

end Interaction
