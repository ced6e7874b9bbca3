import Interaction.Language.Basic
import Mathlib

/-!
This module contains what languages mean: the ordinary meaning, where a repetition stands for any
number of instances of its body, and the meaning of a language that is placed between two nodes of
an automaton, where a repetition at the end of the language loops at the second node.
-/

abbrev SeriesSet (α : Type) : Type := Language α

namespace Interaction

namespace Language

open Computability

mutual

/-- The series of events that a language stands for. -/
def series : Language → SeriesSet Event
  | .event e => {[e]}
  | .sequence parts => seriesOfParts parts
  | .either branches => seriesOfBranches branches
  | .optional body => 1 + series body
  | .zeroOrMore body => (series body)∗
  | .oneOrMore body => series body * (series body)∗

def seriesOfParts : List Language → SeriesSet Event
  | [] => 1
  | l :: rest => series l * seriesOfParts rest

def seriesOfBranches : List Language → SeriesSet Event
  | [] => 0
  | l :: rest => series l + seriesOfBranches rest

end

/--
The series of events of a language between two nodes: those that lead from the first node to the
second, and those that lead from the second node back to it.
-/
structure Flow where
  across : SeriesSet Event
  around : SeriesSet Event

mutual

def flow : Language → Flow
  | .event e => ⟨{[e]}, 0⟩
  | .sequence parts => flowOfParts parts
  | .either branches => flowOfBranches branches
  | .optional body => ⟨1 + (flow body).across, (flow body).around⟩
  | .zeroOrMore body => ⟨1, (flow body).across + (flow body).around⟩
  | .oneOrMore body => ⟨(flow body).across, (flow body).across + (flow body).around⟩

def flowOfParts : List Language → Flow
  | [] => ⟨1, 0⟩
  | [l] => flow l
  | l :: rest =>
    ⟨(flow l).across * (flow l).around∗ * (flowOfParts rest).across, (flowOfParts rest).around⟩

def flowOfBranches : List Language → Flow
  | [] => ⟨0, 0⟩
  | l :: rest =>
    ⟨(flow l).across + (flowOfBranches rest).across, (flow l).around + (flowOfBranches rest).around⟩

end

def Flow.total (f : Flow) : SeriesSet Event := f.across * f.around∗

section Order

variable {S T U V : SeriesSet Event}

theorem mul_kstar_le_add (hS : S ≤ U) (hT : T ≤ V) : S * T∗ ≤ U * V∗ :=
  mul_le_mul' hS (kstar_mono hT)

theorem repeated_le (h : S ≤ T * U∗) : S∗ ≤ (T + U)∗ := by
  have once : T * U∗ ≤ (T + U)∗ := by
    calc
      T * U∗ ≤ (T + U) * (T + U)∗ := mul_kstar_le_add le_self_add le_add_self
      _ ≤ (T + U)∗ := mul_kstar_le_kstar
  calc
    S∗ ≤ (T + U)∗∗ := kstar_mono (h.trans once)
    _ = (T + U)∗ := kstar_idem _

end Order

mutual

theorem series_le_total (l : Language) : l.series ≤ l.flow.total := by
  unfold Flow.total
  cases l with
  | event e =>
    simp only [series, flow]
    exact le_mul_of_one_le_right' one_le_kstar
  | sequence parts => exact seriesOfParts_le_total parts
  | either branches => exact seriesOfBranches_le_total branches
  | optional body =>
    have ih := series_le_total body
    simp only [series, flow]
    apply add_le
    . exact one_le_mul le_self_add one_le_kstar
    . exact ih.trans (mul_kstar_le_add le_add_self le_rfl)
  | zeroOrMore body =>
    have ih := series_le_total body
    simp only [series, flow, one_mul]
    exact repeated_le ih
  | oneOrMore body =>
    have ih : body.series ≤ body.flow.across * body.flow.around∗ := series_le_total body
    simp only [series, flow]
    generalize body.flow.across = E at *
    generalize body.flow.around = R at *
    -- the loops of the first round are among those of the later ones
    calc
      body.series * body.series∗ ≤ E * R∗ * (E + R)∗ := mul_le_mul' ih (repeated_le ih)
      _ ≤ E * (E + R)∗ * (E + R)∗ := mul_le_mul' (mul_kstar_le_add le_rfl le_add_self) le_rfl
      _ = E * (E + R)∗ := by rw [mul_assoc, kstar_mul_kstar]

theorem seriesOfParts_le_total (parts : List Language) :
    seriesOfParts parts ≤ (flowOfParts parts).total := by
  unfold Flow.total
  match parts with
  | [] =>
    simp only [seriesOfParts, flowOfParts, one_mul]
    exact one_le_kstar
  | [l] =>
    simp only [seriesOfParts, flowOfParts, mul_one]
    exact series_le_total l
  | l :: next :: rest =>
    have first := series_le_total l
    have others := seriesOfParts_le_total (next :: rest)
    rw [seriesOfParts, flowOfParts, mul_assoc]
    . exact mul_le_mul' first others
    . simp

theorem seriesOfBranches_le_total (branches : List Language) :
    seriesOfBranches branches ≤ (flowOfBranches branches).total := by
  unfold Flow.total
  match branches with
  | [] =>
    simp only [seriesOfBranches, flowOfBranches]
    exact zero_le
  | l :: rest =>
    have first := series_le_total l
    have others := seriesOfBranches_le_total rest
    simp only [seriesOfBranches, flowOfBranches]
    apply add_le
    . exact first.trans (mul_kstar_le_add le_self_add le_self_add)
    . exact others.trans (mul_kstar_le_add le_add_self le_add_self)

end

end Language

end Interaction
