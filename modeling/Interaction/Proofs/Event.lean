import Interaction.Event
import Mathlib.Data.List.Sort

/-!
This module contains the order of events: it is strict and total, so that an ascending list of
events is known by its members.
-/

namespace Interaction

namespace Event

variable {e e' e'' : Event} {events events' : List Event}

theorem lt_iff : e < e' ↔
    (e.direction = .input ∧ e'.direction = .output) ∨
      (e.direction = e'.direction ∧ e.channel < e'.channel) := by
  have before : e.direction.rank < e'.direction.rank ↔
      e.direction = .input ∧ e'.direction = .output := by
    cases e.direction <;> cases e'.direction <;> decide
  change (_ ∨ _) ↔ _
  rw [before]

theorem lt_irrefl (e : Event) : ¬e < e := by
  rw [lt_iff]
  rintro (⟨input, output⟩ | ⟨_, lt⟩)
  . cases input.symm.trans output
  . exact String.lt_irrefl _ lt

theorem lt_trans (h : e < e') (h' : e' < e'') : e < e'' := by
  rw [lt_iff] at *
  rcases h with ⟨input, output⟩ | ⟨same, lt⟩
  . rcases h' with ⟨input', _⟩ | ⟨same', _⟩
    . cases output.symm.trans input'
    . exact .inl ⟨input, same' ▸ output⟩
  . rcases h' with ⟨input', output'⟩ | ⟨same', lt'⟩
    . exact .inl ⟨same.trans input', output'⟩
    . exact .inr ⟨same.trans same', String.lt_trans lt lt'⟩

theorem lt_of_not_lt (h : ¬e < e') (ne : e ≠ e') : e' < e := by
  obtain ⟨direction, channel⟩ := e
  obtain ⟨direction', channel'⟩ := e'
  rw [lt_iff] at *
  by_cases same : direction = direction'
  . subst same
    have different : channel ≠ channel' := fun eq => ne (eq ▸ rfl)
    refine .inr ⟨rfl, ?_⟩
    by_contra notAfter
    have notBefore : ¬channel < channel' := fun lt => h (.inr ⟨rfl, lt⟩)
    exact different (String.le_antisymm (String.not_lt.1 notAfter) (String.not_lt.1 notBefore))
  . left
    cases direction <;> cases direction' <;> simp_all

theorem mem_insertInto : e' ∈ insertInto e events ↔ e' = e ∨ e' ∈ events := by
  induction events with
  | nil => simp [insertInto]
  | cons x rest ih =>
    rw [insertInto]
    split
    . exact List.mem_cons
    . split
      . next same =>
        subst same
        simp
      . rw [List.mem_cons, ih, List.mem_cons]
        exact or_left_comm

theorem pairwise_insertInto (h : events.Pairwise (· < ·)) :
    (insertInto e events).Pairwise (· < ·) := by
  induction events with
  | nil => simp [insertInto]
  | cons x rest ih =>
    have ⟨least, ascending⟩ := List.pairwise_cons.1 h
    rw [insertInto]
    split
    . next before =>
      refine .cons ?_ h
      intro y mem
      rcases List.mem_cons.1 mem with rfl | mem
      . exact before
      . exact lt_trans before (least y mem)
    . next notBefore =>
      split
      . exact h
      . next ne =>
        refine .cons ?_ (ih ascending)
        intro y mem
        rcases mem_insertInto.1 mem with rfl | mem
        . exact lt_of_not_lt notBefore ne
        . exact least y mem

theorem mem_ascending : e ∈ ascending events ↔ e ∈ events := by
  unfold ascending
  induction events with
  | nil => rfl
  | cons x rest ih => rw [List.foldr_cons, mem_insertInto, ih, List.mem_cons]

theorem pairwise_ascending (events : List Event) : (ascending events).Pairwise (· < ·) := by
  unfold ascending
  induction events with
  | nil => exact .nil
  | cons x rest ih => exact pairwise_insertInto ih

theorem eq_of_mem_iff (h : events.Pairwise (· < ·)) (h' : events'.Pairwise (· < ·))
    (same : ∀ e, e ∈ events ↔ e ∈ events') : events = events' := by
  have : Std.Irrefl fun a b : Event => a < b := ⟨lt_irrefl⟩
  have : Std.Antisymm fun a b : Event => a < b :=
    ⟨fun a b lt gt => absurd (lt_trans lt gt) (lt_irrefl a)⟩
  exact h.eq_of_mem_iff h' same

end Event

end Interaction
