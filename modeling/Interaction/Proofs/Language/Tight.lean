import Interaction.Proofs.Language.Shape

/-!
This module contains which languages keep their repetitions to themselves: where no body and no
branch ends with a repetition, the flow of a language is its ordinary meaning.
-/

namespace Interaction

namespace Language

open Computability

mutual

def repeatsAtEnd : Language → Bool
  | .event _ => false
  | .sequence parts => lastRepeatsAtEnd parts
  | .either branches => anyRepeatsAtEnd branches
  | .optional body => repeatsAtEnd body
  | .zeroOrMore _ => true
  | .oneOrMore _ => true

def lastRepeatsAtEnd : List Language → Bool
  | [] => false
  | [l] => repeatsAtEnd l
  | _ :: rest => lastRepeatsAtEnd rest

def anyRepeatsAtEnd : List Language → Bool
  | [] => false
  | l :: rest => repeatsAtEnd l || anyRepeatsAtEnd rest

end

/-- Whether no repetition stands where a body or a branch of a language ends. -/
def Tight : Language → Prop
  | .either branches => ∀ l ∈ branches, l.repeatsAtEnd = false
  | .optional body => body.repeatsAtEnd = false
  | .zeroOrMore body => body.repeatsAtEnd = false
  | .oneOrMore body => body.repeatsAtEnd = false
  | _ => True

theorem anyRepeatsAtEnd_eq_false_iff {ls : List Language} :
    anyRepeatsAtEnd ls = false ↔ ∀ l ∈ ls, l.repeatsAtEnd = false := by
  induction ls with
  | nil => simp [anyRepeatsAtEnd]
  | cons l rest ih => simp [anyRepeatsAtEnd, ih]

mutual

theorem loops_eq_nil {l : Language} (h : l.repeatsAtEnd = false) : l.loops = [] := by
  cases l with
  | event e => rfl
  | sequence parts => exact loopsOfParts_eq_nil parts h
  | either branches => exact loopsOfBranches_eq_nil (anyRepeatsAtEnd_eq_false_iff.1 h)
  | optional body =>
    rw [loops]
    exact loops_eq_nil (l := body) h
  | zeroOrMore body => cases h
  | oneOrMore body => cases h

theorem loopsOfParts_eq_nil (parts : List Language) (h : lastRepeatsAtEnd parts = false) :
    loopsOfParts parts = [] := by
  match parts with
  | [] => rfl
  | [l] => exact loops_eq_nil (l := l) h
  | l :: next :: rest =>
    rw [loopsOfParts]
    . exact loopsOfParts_eq_nil (next :: rest) h
    . simp

theorem loopsOfBranches_eq_nil {branches : List Language}
    (h : ∀ l ∈ branches, l.repeatsAtEnd = false) : loopsOfBranches branches = [] := by
  match branches with
  | [] => rfl
  | l :: rest =>
    rw [loopsOfBranches, loops_eq_nil (h l List.mem_cons_self), List.nil_append]
    exact loopsOfBranches_eq_nil fun m mem => h m (List.mem_cons_of_mem l mem)

end

theorem around_eq_zero {l : Language} (h : l.repeatsAtEnd = false) : l.flow.around = 0 := by
  ext w
  rw [mem_around_iff, loops_eq_nil h]
  simp

theorem hidesEnd_eq_false {l : Language} (h : l.repeatsAtEnd = false) : l.hidesEnd = false := by
  rw [hidesEnd_eq_false_iff]
  exact .inl (loops_eq_nil h)

theorem total_eq_across {l : Language} (h : l.repeatsAtEnd = false) :
    l.flow.total = l.flow.across := by
  unfold Flow.total
  rw [around_eq_zero h, kstar_zero, mul_one]

theorem mem_acrossOfBranches_iff {branches : List Language} {w : List Event} :
    w ∈ (flowOfBranches branches).across ↔ ∃ l ∈ branches, w ∈ l.flow.across := by
  induction branches with
  | nil => simp [flowOfBranches]
  | cons l rest ih =>
    simp only [flowOfBranches, Language.mem_add, ih, List.exists_mem_cons_iff]

theorem mem_aroundOfBranches_iff_exists {branches : List Language} {w : List Event} :
    w ∈ (flowOfBranches branches).around ↔ ∃ l ∈ branches, w ∈ l.flow.around := by
  induction branches with
  | nil => simp [flowOfBranches]
  | cons l rest ih =>
    simp only [flowOfBranches, Language.mem_add, ih, List.exists_mem_cons_iff]

mutual

theorem total_eq_series {l : Language} (h : l.Each Tight) : l.flow.total = l.series := by
  cases l with
  | event e => simp [Flow.total, flow, series]
  | sequence parts => exact totalOfParts_eq_series h.2
  | either branches =>
    have across := acrossOfBranches_eq_series h.1 h.2
    have single : Language.repeatsAtEnd (.either branches) = false :=
      anyRepeatsAtEnd_eq_false_iff.2 h.1
    rw [total_eq_across single]
    exact across
  | optional body =>
    have across := across_eq_series h.1 h.2
    simp only [Flow.total, flow, series, around_eq_zero h.1, across, kstar_zero, mul_one]
  | zeroOrMore body =>
    have across := across_eq_series h.1 h.2
    simp only [Flow.total, flow, series, around_eq_zero h.1, across, add_zero, one_mul]
  | oneOrMore body =>
    have across := across_eq_series h.1 h.2
    simp only [Flow.total, flow, series, around_eq_zero h.1, across, add_zero]

theorem across_eq_series {l : Language} (none : l.repeatsAtEnd = false) (h : l.Each Tight) :
    l.flow.across = l.series := by
  rw [← total_eq_across none]
  exact total_eq_series h

theorem totalOfParts_eq_series {parts : List Language} (h : EachOf Tight parts) :
    (flowOfParts parts).total = seriesOfParts parts := by
  match parts with
  | [] => simp [Flow.total, flowOfParts, seriesOfParts]
  | [l] =>
    rw [seriesOfParts, seriesOfParts, mul_one]
    exact total_eq_series h.1
  | l :: next :: rest =>
    have first : l.flow.across * l.flow.around∗ = l.series := total_eq_series h.1
    have others := totalOfParts_eq_series h.2
    unfold Flow.total at others ⊢
    rw [flowOfParts, seriesOfParts, ← others, ← first, mul_assoc]
    simp

theorem acrossOfBranches_eq_series {branches : List Language}
    (none : ∀ l ∈ branches, l.repeatsAtEnd = false) (h : EachOf Tight branches) :
    (flowOfBranches branches).across = seriesOfBranches branches := by
  match branches with
  | [] => rfl
  | l :: rest =>
    have first := across_eq_series (none l List.mem_cons_self) h.1
    have others :=
      acrossOfBranches_eq_series (fun m mem => none m (List.mem_cons_of_mem l mem)) h.2
    simp only [flowOfBranches, seriesOfBranches, first, others]

end

end Language

end Interaction
