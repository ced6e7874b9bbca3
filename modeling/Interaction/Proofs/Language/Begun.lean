import Interaction.Proofs.Language.Shape

/-!
This module contains which series of events a language has begun with: those on the ways that lead
into it, whether or not they can be completed.
-/

namespace Interaction

namespace Language

open Computability

mutual

/--
The series of events on the ways into a language between two nodes that have not yet arrived at the
second one: ways from the first node, and ways from the second node into its loops.
-/
def begun : Language → Flow
  | .event _ => ⟨1, 0⟩
  | .sequence parts => begunOfParts parts
  | .either branches => begunOfBranches branches
  | .optional body => begun body
  | .zeroOrMore body => ⟨1, (begun body).across + (begun body).around⟩
  | .oneOrMore body => ⟨(begun body).across, (begun body).across + (begun body).around⟩

def begunOfParts : List Language → Flow
  | [] => ⟨1, 0⟩
  | [l] => begun l
  | l :: rest =>
    ⟨(begun l).across + l.flow.total * ((begun l).around + (begunOfParts rest).across),
      (begunOfParts rest).around⟩

def begunOfBranches : List Language → Flow
  | [] => ⟨1, 0⟩
  | l :: rest =>
    ⟨(begun l).across + (begunOfBranches rest).across,
      (begun l).around + (begunOfBranches rest).around⟩

end

section Parts

variable {l next : Language} {rest : List Language}

theorem flowOfParts_cons_cons : flowOfParts (l :: next :: rest) =
    ⟨l.flow.total * (flowOfParts (next :: rest)).across, (flowOfParts (next :: rest)).around⟩ := rfl

theorem begunOfParts_cons_cons : begunOfParts (l :: next :: rest) =
    ⟨l.begun.across + l.flow.total * (l.begun.around + (begunOfParts (next :: rest)).across),
      (begunOfParts (next :: rest)).around⟩ := rfl

end Parts

def legal (l : Language) : SeriesSet Event :=
  l.begun.across + l.flow.total * (1 + l.begun.around)

def turns (l : Language) : List (Option Event) := l.loops.flatMap heads

theorem mem_turns_iff {l : Language} {label : Option Event} :
    label ∈ l.turns ↔ ∃ body ∈ l.loops, label ∈ body.heads :=
  List.mem_flatMap

theorem mem_turns_either_cons {l : Language} {rest : List Language} {label : Option Event} :
    label ∈ (Language.either (l :: rest)).turns ↔
      label ∈ l.turns ∨ label ∈ (Language.either rest).turns := by
  simp only [mem_turns_iff, loops, loopsOfBranches, List.mem_append, or_and_right, exists_or]

mutual

theorem one_le_begun (l : Language) : 1 ≤ l.begun.across := by
  cases l with
  | event e => exact le_rfl
  | sequence parts => exact one_le_begunOfParts parts
  | either branches => exact one_le_begunOfBranches branches
  | optional body => exact one_le_begun body
  | zeroOrMore body => exact le_rfl
  | oneOrMore body => exact one_le_begun body

theorem one_le_begunOfParts (parts : List Language) : 1 ≤ (begunOfParts parts).across := by
  match parts with
  | [] => exact le_rfl
  | [l] => exact one_le_begun l
  | l :: next :: rest =>
    rw [begunOfParts_cons_cons]
    exact (one_le_begun l).trans le_self_add

theorem one_le_begunOfBranches (branches : List Language) :
    1 ≤ (begunOfBranches branches).across := by
  match branches with
  | [] => exact le_rfl
  | l :: rest => exact (one_le_begun l).trans le_self_add

end

end Language

end Interaction
