import Interaction.Proofs.Language.Begun
import Mathlib.Logic.Relation

/-!
This module contains when languages are alike: what is begun, completed and repeated in them is the
same, and so it is in larger languages that contain them. Regrouped languages are alike.
-/

namespace Interaction

namespace Language

open Computability

inductive Regroups : Language → Language → Prop where
  | flattenSequence (before inner after : List Language) :
    Regroups (.sequence (before ++ .sequence inner :: after)) (.sequence (before ++ inner ++ after))
  | flattenEither (before inner after : List Language) :
    Regroups (.either (before ++ .either inner :: after)) (.either (before ++ inner ++ after))
  | permute {branches branches' : List Language} :
    branches.Perm branches' → Regroups (.either branches) (.either branches')
  | inSequence (before after : List Language) {l l' : Language} :
    Regroups l l' →
      Regroups (.sequence (before ++ l :: after)) (.sequence (before ++ l' :: after))
  | inEither (before after : List Language) {l l' : Language} :
    Regroups l l' → Regroups (.either (before ++ l :: after)) (.either (before ++ l' :: after))
  | inOptional {l l' : Language} : Regroups l l' → Regroups (.optional l) (.optional l')
  | inZeroOrMore {l l' : Language} : Regroups l l' → Regroups (.zeroOrMore l) (.zeroOrMore l')
  | inOneOrMore {l l' : Language} : Regroups l l' → Regroups (.oneOrMore l) (.oneOrMore l')

/-- Whether languages agree in what is begun, completed and repeated in them. -/
structure Alike (l l' : Language) : Prop where
  flow : l.flow = l'.flow
  begun : l.begun = l'.begun
  heads : ∀ label, label ∈ l.heads ↔ label ∈ l'.heads
  turns : ∀ label, label ∈ l.turns ↔ label ∈ l'.turns

variable {l l' m : Language} {ls ls' before inner after branches branches' : List Language}

namespace Alike

theorem refl (l : Language) : l.Alike l := ⟨rfl, rfl, fun _ => Iff.rfl, fun _ => Iff.rfl⟩

theorem trans (h : l.Alike l') (h' : l'.Alike m) : l.Alike m :=
  ⟨h.flow.trans h'.flow, h.begun.trans h'.begun, fun x => (h.heads x).trans (h'.heads x),
    fun x => (h.turns x).trans (h'.turns x)⟩

theorem optional (h : l.Alike l') : (Language.optional l).Alike (.optional l') := by
  refine ⟨?_, h.begun, ?_, h.turns⟩
  . rw [Language.flow, Language.flow, h.flow]
  . intro label
    rw [Language.heads, Language.heads, List.mem_cons, List.mem_cons, h.heads]

theorem zeroOrMore (h : l.Alike l') : (Language.zeroOrMore l).Alike (.zeroOrMore l') := by
  refine ⟨?_, ?_, fun _ => Iff.rfl, ?_⟩
  . rw [Language.flow, Language.flow, h.flow]
  . rw [Language.begun, Language.begun, h.begun]
  . intro label
    exact (List.mem_append.trans (or_congr (h.heads label) (h.turns label))).trans
      List.mem_append.symm

theorem oneOrMore (h : l.Alike l') : (Language.oneOrMore l).Alike (.oneOrMore l') := by
  refine ⟨?_, ?_, h.heads, ?_⟩
  . rw [Language.flow, Language.flow, h.flow]
  . rw [Language.begun, Language.begun, h.begun]
  . intro label
    exact (List.mem_append.trans (or_congr (h.heads label) (h.turns label))).trans
      List.mem_append.symm

theorem sequence_cons (h : l.Alike l') (h' : (Language.sequence ls).Alike (.sequence ls'))
    (ends : ls = [] ↔ ls' = []) :
    (Language.sequence (l :: ls)).Alike (.sequence (l' :: ls')) := by
  match ls, ls' with
  | [], [] => exact ⟨h.flow, h.begun, h.heads, h.turns⟩
  | [], _ :: _ => simp at ends
  | _ :: _, [] => simp at ends
  | next :: rest, next' :: rest' =>
    have flow : flowOfParts (next :: rest) = flowOfParts (next' :: rest') := h'.flow
    have begun : begunOfParts (next :: rest) = begunOfParts (next' :: rest') := h'.begun
    refine ⟨?_, ?_, h.heads, h'.turns⟩
    . change flowOfParts _ = flowOfParts _
      rw [flowOfParts_cons_cons, flowOfParts_cons_cons, h.flow, flow]
    . change begunOfParts _ = begunOfParts _
      rw [begunOfParts_cons_cons, begunOfParts_cons_cons, h.flow, h.begun, begun]

theorem sequence_append (h : (Language.sequence ls).Alike (.sequence ls'))
    (ends : ls = [] ↔ ls' = []) (before : List Language) :
    (Language.sequence (before ++ ls)).Alike (.sequence (before ++ ls')) := by
  induction before with
  | nil => exact h
  | cons l before ih =>
    apply sequence_cons (refl l) ih
    rw [List.append_eq_nil_iff, List.append_eq_nil_iff, ends]

theorem either_cons (h : l.Alike l') (h' : (Language.either ls).Alike (.either ls')) :
    (Language.either (l :: ls)).Alike (.either (l' :: ls')) := by
  have flow : flowOfBranches ls = flowOfBranches ls' := h'.flow
  have begun : begunOfBranches ls = begunOfBranches ls' := h'.begun
  refine ⟨?_, ?_, ?_, ?_⟩
  . simp only [Language.flow, flowOfBranches, h.flow, flow]
  . simp only [Language.begun, begunOfBranches, h.begun, begun]
  . intro label
    exact (List.mem_append.trans (or_congr (h.heads label) (h'.heads label))).trans
      List.mem_append.symm
  . intro label
    rw [mem_turns_either_cons, mem_turns_either_cons, h.turns, h'.turns]

theorem either_append (h : (Language.either ls).Alike (.either ls')) (before : List Language) :
    (Language.either (before ++ ls)).Alike (.either (before ++ ls')) := by
  induction before with
  | nil => exact h
  | cons l before ih => exact either_cons (refl l) ih

end Alike

section Regroup

theorem alike_sequence_singleton (l : Language) : (Language.sequence [l]).Alike l :=
  ⟨rfl, rfl, fun _ => Iff.rfl, fun _ => Iff.rfl⟩

theorem alike_sequence_assoc (l next : Language) (rest : List Language) (some : after ≠ []) :
    (Language.sequence (.sequence (l :: next :: rest) :: after)).Alike
      (.sequence (l :: .sequence (next :: rest) :: after)) := by
  match after with
  | [] => exact absurd rfl some
  | m :: after =>
    refine ⟨?_, ?_, fun _ => Iff.rfl, fun _ => Iff.rfl⟩
    . change flowOfParts _ = flowOfParts _
      simp only [flowOfParts_cons_cons, flow, Flow.total, mul_assoc]
    . change begunOfParts _ = begunOfParts _
      simp only [begunOfParts_cons_cons, begun, flow, flowOfParts_cons_cons, Flow.total, mul_add,
        mul_assoc, add_assoc]

theorem alike_flattenSequence (some : inner ≠ []) (after : List Language) :
    (Language.sequence (.sequence inner :: after)).Alike (.sequence (inner ++ after)) := by
  cases after with
  | nil =>
    rw [List.append_nil]
    exact alike_sequence_singleton _
  | cons m after =>
    induction inner with
    | nil => exact absurd rfl some
    | cons l rest ih =>
      cases rest with
      | nil => exact (alike_sequence_singleton l).sequence_cons (.refl _) Iff.rfl
      | cons next rest =>
        have others := ih (List.cons_ne_nil next rest)
        apply (alike_sequence_assoc l next rest (List.cons_ne_nil m after)).trans
        exact (Alike.refl l).sequence_cons others (by simp)

theorem alike_either_nil_cons (after : List Language) :
    (Language.either (.either [] :: after)).Alike (.either after) := by
  refine ⟨?_, ?_, fun _ => Iff.rfl, fun _ => Iff.rfl⟩
  . simp only [flow, flowOfBranches, zero_add]
  . -- a choice without branches begins with nothing, as every language does
    have stay := add_eq_right_iff_le.2 (one_le_begunOfBranches after)
    simp only [begun, begunOfBranches, zero_add, stay]

theorem alike_either_assoc (l : Language) (rest after : List Language) :
    (Language.either (.either (l :: rest) :: after)).Alike
      (.either (l :: .either rest :: after)) := by
  refine ⟨?_, ?_, ?_, ?_⟩
  . simp only [flow, flowOfBranches, add_assoc]
  . simp only [begun, begunOfBranches, add_assoc]
  . intro label
    simp only [heads, headsOfBranches, List.append_assoc]
  . intro label
    simp only [mem_turns_either_cons, or_assoc]

theorem alike_flattenEither (inner after : List Language) :
    (Language.either (.either inner :: after)).Alike (.either (inner ++ after)) := by
  induction inner with
  | nil => exact alike_either_nil_cons after
  | cons l rest ih => exact (alike_either_assoc l rest after).trans ((Alike.refl l).either_cons ih)

theorem alike_either_swap (l l' : Language) (rest : List Language) :
    (Language.either (l :: l' :: rest)).Alike (.either (l' :: l :: rest)) := by
  refine ⟨?_, ?_, ?_, ?_⟩
  . simp only [flow, flowOfBranches, add_left_comm]
  . simp only [begun, begunOfBranches, add_left_comm]
  . intro label
    simp only [heads, headsOfBranches, List.mem_append, or_left_comm]
  . intro label
    simp only [mem_turns_either_cons, or_left_comm]

theorem alike_permute (perm : branches.Perm branches') :
    (Language.either branches).Alike (.either branches') := by
  induction perm with
  | nil => exact .refl _
  | cons l _ ih => exact (Alike.refl l).either_cons ih
  | swap l l' rest => exact alike_either_swap l' l rest
  | trans _ _ ih ih' => exact ih.trans ih'

end Regroup

theorem eachOf_append {p : Language → Prop} {before after : List Language} :
    EachOf p (before ++ after) ↔ EachOf p before ∧ EachOf p after := by
  rw [eachOf_iff, eachOf_iff, eachOf_iff, List.forall_mem_append]

theorem eachOf_insert {p : Language → Prop} {before after : List Language} {l : Language} :
    EachOf p (before ++ l :: after) ↔ EachOf p before ∧ l.Each p ∧ EachOf p after :=
  eachOf_append

namespace Regroups

theorem alike (h : Regroups l l') (each : l.Each (· ≠ .sequence [])) : l.Alike l' := by
  induction h with
  | flattenSequence before inner after =>
    have some : inner ≠ [] := by
      rintro rfl
      exact (eachOf_insert.1 each.2).2.1.1 rfl
    rw [List.append_assoc]
    apply (alike_flattenSequence some after).sequence_append
    simp [some]
  | flattenEither before inner after =>
    rw [List.append_assoc]
    exact (alike_flattenEither inner after).either_append before
  | permute perm => exact alike_permute perm
  | inSequence before after _ ih =>
    have inside := ih (eachOf_insert.1 each.2).2.1
    exact (inside.sequence_cons (.refl _) Iff.rfl).sequence_append (by simp) before
  | inEither before after _ ih =>
    have inside := ih (eachOf_insert.1 each.2).2.1
    exact (inside.either_cons (.refl _)).either_append before
  | inOptional _ ih => exact (ih each.2).optional
  | inZeroOrMore _ ih => exact (ih each.2).zeroOrMore
  | inOneOrMore _ ih => exact (ih each.2).oneOrMore

theorem each_ne_sequence_nil (h : Regroups l l') (each : l.Each (· ≠ .sequence [])) :
    l'.Each (· ≠ .sequence []) := by
  induction h with
  | flattenSequence before inner after =>
    obtain ⟨eachBefore, ⟨some, eachInner⟩, eachAfter⟩ := eachOf_insert.1 each.2
    refine ⟨?_, eachOf_append.2 ⟨eachOf_append.2 ⟨eachBefore, eachInner⟩, eachAfter⟩⟩
    intro empty
    have none : (before ++ inner) ++ after = [] := Language.sequence.inj empty
    simp only [List.append_eq_nil_iff] at none
    exact some (congrArg _ none.1.2)
  | flattenEither before inner after =>
    obtain ⟨eachBefore, inside, eachAfter⟩ := eachOf_insert.1 each.2
    exact ⟨by simp, eachOf_append.2 ⟨eachOf_append.2 ⟨eachBefore, inside.2⟩, eachAfter⟩⟩
  | permute perm =>
    refine ⟨by simp, eachOf_iff.2 ?_⟩
    intro l mem
    exact eachOf_iff.1 each.2 l (perm.mem_iff.2 mem)
  | inSequence before after _ ih =>
    obtain ⟨eachBefore, inside, eachAfter⟩ := eachOf_insert.1 each.2
    exact ⟨by simp, eachOf_insert.2 ⟨eachBefore, ih inside, eachAfter⟩⟩
  | inEither before after _ ih =>
    obtain ⟨eachBefore, inside, eachAfter⟩ := eachOf_insert.1 each.2
    exact ⟨by simp, eachOf_insert.2 ⟨eachBefore, ih inside, eachAfter⟩⟩
  | inOptional _ ih => exact ⟨by simp, ih each.2⟩
  | inZeroOrMore _ ih => exact ⟨by simp, ih each.2⟩
  | inOneOrMore _ ih => exact ⟨by simp, ih each.2⟩

end Regroups

theorem alike_of_regroups (h : Relation.ReflTransGen Regroups l l')
    (each : l.Each (· ≠ .sequence [])) : l.Alike l' := by
  induction h using Relation.ReflTransGen.head_induction_on with
  | refl => exact .refl _
  | head step _ ih => exact (step.alike each).trans (ih (step.each_ne_sequence_nil each))

end Language

end Interaction
