import Interaction.Proofs.Definition.Load
import Mathlib.Algebra.GroupWithZero.Nat

/-!
This module contains how many errors a definition file is charged with: one for each of its
problems, except that a definition which repeats a name and has no language is charged once.
-/

namespace Interaction

section Repeated

variable {α β : Type} [DecidableEq β]

def countRepeated (key : α → β) (p : α → Bool) (xs : List α) : Nat :=
  (List.range xs.length).countP fun i =>
    xs[i]?.any p ∧ ∃ j < i, xs[j]?.map key = xs[i]?.map key

variable {key : α → β} {p : α → Bool} {xs : List α} {x : α}

theorem countRepeated_nil : countRepeated key p [] = 0 := rfl

theorem countRepeated_concat : countRepeated key p (xs ++ [x]) =
    countRepeated key p xs + if p x = true ∧ key x ∈ xs.map key then 1 else 0 := by
  unfold countRepeated
  rw [List.length_append, List.length_singleton, List.range_succ, List.countP_append,
    List.countP_singleton]
  have old : ∀ i < xs.length, (xs ++ [x])[i]? = xs[i]? := fun i lt =>
    List.getElem?_append_left lt
  have last : (xs ++ [x])[xs.length]? = some x := List.getElem?_concat_length
  congr 1
  . apply List.countP_congr
    intro i mem
    have lt := List.mem_range.1 mem
    have same : ∀ j < i, ((xs ++ [x])[j]?.map key = xs[i]?.map key ↔
        xs[j]?.map key = xs[i]?.map key) := by
      intro j less
      rw [old j (Nat.lt_trans less lt)]
    simp only [old i lt, decide_eq_true_eq]
    apply and_congr_right
    intro _
    apply exists_congr
    intro j
    exact and_congr_right (same j)
  . have earlier : (∃ j < xs.length, (xs ++ [x])[j]?.map key = some (key x)) ↔
        key x ∈ xs.map key := by
      rw [List.mem_iff_getElem?]
      constructor
      . rintro ⟨j, lt, same⟩
        rw [old j lt] at same
        exact ⟨j, by rw [List.getElem?_map, same]⟩
      . rintro ⟨j, same⟩
        have lt : j < xs.length := by
          by_contra beyond
          rw [List.getElem?_map, List.getElem?_eq_none (Nat.not_lt.1 beyond)] at same
          cases same
        rw [List.getElem?_map] at same
        exact ⟨j, lt, by rw [old j lt, same]⟩
    simp only [last, Option.any_some, Option.map_some, earlier, decide_eq_true_eq]

theorem countRepeated_map {γ : Type} {f : γ → α} {ys : List γ} :
    countRepeated key p (ys.map f) = countRepeated (key ∘ f) (p ∘ f) ys := by
  induction ys using List.reverseRecOn with
  | nil => rfl
  | append_singleton ys y ih =>
    rw [List.map_append, List.map_singleton, countRepeated_concat, countRepeated_concat, ih,
      List.map_map]
    rfl

theorem countRepeated_eq_zero_iff : countRepeated key p xs = 0 ↔
    xs.Pairwise fun x y => key x = key y → p y = false := by
  induction xs using List.reverseRecOn with
  | nil => simp [countRepeated_nil]
  | append_singleton xs x ih =>
    have last : (if p x = true ∧ key x ∈ xs.map key then 1 else 0) = 0 ↔
        ∀ y ∈ xs, key y = key x → p x = false := by
      simp only [List.mem_map]
      split
      . next repeated =>
        obtain ⟨holds, y, mem, same⟩ := repeated
        simp only [Nat.one_ne_zero, false_iff, not_forall]
        exact ⟨y, mem, same, by simp [holds]⟩
      . next new =>
        refine ⟨fun _ y mem same => ?_, fun _ => rfl⟩
        rw [← Bool.not_eq_true]
        exact fun holds => new ⟨holds, y, mem, same⟩
    rw [countRepeated_concat, Nat.add_eq_zero_iff, ih, last, List.pairwise_append]
    simp

end Repeated

namespace Outline

def undeclared (o : Outline) : List Event :=
  ((o.languages.head?.map Language.events).getD []).filter (· ∉ o.declarations.map (·.1))

def problemCount (o : Outline) : Nat :=
  (o.descriptions.length - 1) + (o.languages.length - 1) +
    countRepeated (·.1) (fun _ => true) o.declarations +
    (if o.languages.isEmpty then 1 else 0) + o.undeclared.length

def fileProblemCount (os : List Outline) : Nat :=
  countRepeated (·.name) (fun _ => true) os + (os.map problemCount).sum

/-- How many definitions have the name of an earlier one, and no language either. -/
def maskedCount (os : List Outline) : Nat :=
  countRepeated (·.name) (·.languages.isEmpty) os

variable {os : List Outline} {o : Outline}

theorem fileProblemCount_concat : fileProblemCount (os ++ [o]) =
    fileProblemCount os + ((if o.name ∈ os.map (·.name) then 1 else 0) + o.problemCount) := by
  unfold fileProblemCount
  rw [countRepeated_concat, List.map_append, List.sum_append]
  simp only [true_and, List.map_cons, List.map_nil, List.sum_singleton]
  omega

theorem maskedCount_concat : maskedCount (os ++ [o]) =
    maskedCount os + if o.languages.isEmpty = true ∧ o.name ∈ os.map (·.name) then 1 else 0 :=
  countRepeated_concat

theorem maskedCount_eq_zero_iff : maskedCount os = 0 ↔
    os.Pairwise fun o o' => o.name = o'.name → o'.languages ≠ [] := by
  unfold maskedCount
  rw [countRepeated_eq_zero_iff]
  simp only [List.isEmpty_eq_false_iff]

end Outline

def DefinitionPart.isChannel : DefinitionPart → Bool
  | .channel _ => true
  | _ => false

namespace Definition

open Interaction.Parser

variable {d : Definition} {ds : List Definition} {p : LocatedProblem}
variable {parts : List DefinitionPart} {cs : List ChannelDeclaration} {c : ChannelDeclaration}
variable {described spoken : Bool} {declared : List Event} {earlier : List String}

section Lengths

theorem length_repeatedParts : (repeatedParts described spoken parts).length =
    ((parts.filterMap (·.outline.description?)).length + described.toNat - 1) +
      ((parts.filterMap (·.outline.language?)).length + spoken.toNat - 1) := by
  -- a flag that is set stands for a part before these
  induction parts generalizing described spoken with
  | nil => cases described <;> cases spoken <;> rfl
  | cons part parts ih =>
    cases part with
    | description =>
      simp only [repeatedParts, List.length_append, ih]
      cases described <;> cases spoken <;>
        simp [DefinitionPart.outline, OutlinePart.description?, OutlinePart.language?] <;> omega
    | channel =>
      simp only [repeatedParts, ih]
      simp [DefinitionPart.outline, OutlinePart.description?, OutlinePart.language?]
    | language =>
      simp only [repeatedParts, List.length_append, ih]
      cases described <;> cases spoken <;>
        simp [DefinitionPart.outline, OutlinePart.description?, OutlinePart.language?] <;> omega

theorem repeatedChannels_concat : repeatedChannels declared (cs ++ [c]) =
    repeatedChannels declared cs ++
      if c.event ∈ cs.map (·.event) ∨ c.event ∈ declared then
        [⟨.repeatedChannel c.event, c.start, c.stop⟩] else [] := by
  induction cs generalizing declared with
  | nil => simp [repeatedChannels]
  | cons head cs ih =>
    rw [List.cons_append, repeatedChannels, repeatedChannels, ih, List.append_assoc]
    simp only [List.map_cons, List.mem_cons]
    congr 3
    simp only [eq_iff_iff]
    tauto

theorem length_repeatedChannels : (repeatedChannels [] cs).length =
    countRepeated (·.event) (fun _ => true) cs := by
  induction cs using List.reverseRecOn with
  | nil => rfl
  | append_singleton cs c ih =>
    rw [repeatedChannels_concat, List.length_append, ih, countRepeated_concat]
    simp only [List.not_mem_nil, or_false, true_and]
    split <;> rfl

end Lengths

section Inner

def undeclaredFaults (d : Definition) : List LocatedProblem :=
  (d.language?.map d.undeclared).getD []

def innerFaults (d : Definition) : List LocatedProblem :=
  repeatedParts false false d.parts ++ repeatedChannels [] d.declarations ++ d.undeclaredFaults

theorem mem_undeclaredFaults_iff :
    p ∈ d.undeclaredFaults ↔ ∃ text, d.language? = some text ∧ p ∈ d.undeclared text := by
  unfold undeclaredFaults
  cases d.language? <;> simp

theorem mem_faults_iff_inner : p ∈ d.faults earlier ↔ p ∈ d.innerFaults ∨
    (d.name ∈ earlier ∧ p = ⟨.repeatedName d.name, d.start, d.stop⟩) ∨
    (d.language? = none ∧ p = ⟨.noLanguage d.name, d.start, d.stop⟩) := by
  rw [mem_faults_iff, ← mem_undeclaredFaults_iff]
  unfold innerFaults
  rw [List.mem_append, List.mem_append]
  tauto

theorem map_span_declarations : d.declarations.map (fun c => (c.start, c.stop)) =
    (d.parts.filter (·.isChannel)).map (·.span) := by
  unfold declarations
  induction d.parts with
  | nil => rfl
  | cons part parts ih => cases part <;> simp [DefinitionPart.isChannel, DefinitionPart.span, ih]

theorem map_span_repeatedParts : ((repeatedParts described spoken parts).map (·.span)).Sublist
    ((parts.filter (!·.isChannel)).map (·.span)) := by
  induction parts generalizing described spoken with
  | nil => exact .slnil
  | cons part parts ih =>
    cases part with
    | description text start stop =>
      cases described with
      | false => exact ih.cons _
      | true => exact ih.cons_cons _
    | channel c => exact ih
    | language text start stop =>
      cases spoken with
      | false => exact ih.cons _
      | true => exact ih.cons_cons _

theorem map_span_repeatedChannels : ((repeatedChannels declared cs).map (·.span)).Sublist
    (cs.map fun c => (c.start, c.stop)) := by
  induction cs generalizing declared with
  | nil => exact .slnil
  | cons c cs ih =>
    rw [repeatedChannels]
    split
    . exact ih.cons_cons _
    . exact ih.cons _

theorem map_span_repeated : ∃ spans, spans.Perm (d.parts.map (·.span)) ∧
    ((repeatedParts false false d.parts ++ repeatedChannels [] d.declarations).map
      (·.span)).Sublist spans := by
  refine ⟨_, List.Perm.map _ (List.filter_append_perm (!·.isChannel) d.parts), ?_⟩
  rw [List.map_append, List.map_append]
  apply map_span_repeatedParts.append
  simp only [Bool.not_not]
  rw [← map_span_declarations]
  exact map_span_repeatedChannels

theorem span_of_mem_repeated
    (mem : p ∈ repeatedParts false false d.parts ++ repeatedChannels [] d.declarations) :
    p.span ∈ d.parts.map (·.span) := by
  obtain ⟨spans, perm, sublist⟩ := map_span_repeated (d := d)
  exact perm.mem_iff.1 (sublist.subset (List.mem_map_of_mem mem))

theorem nodup_undeclaredFaults (orderly : d.Orderly) :
    (d.undeclaredFaults.map (·.span)).Nodup := by
  unfold undeclaredFaults
  match found : d.language? with
  | none => exact .nil
  | some text =>
    obtain ⟨start, stop, part⟩ := exists_mem_of_language? found
    have sublist : ((d.undeclared text).map (·.span)).Sublist
        (text.references.map (·.span)) := by
      unfold undeclared
      rw [List.map_map]
      exact List.filter_sublist.map _
    exact (orderly.languages _ _ _ part).inOrder.nodup.sublist sublist

theorem exists_of_mem_undeclaredFaults (orderly : d.Orderly) (mem : p ∈ d.undeclaredFaults) :
    ∃ span ∈ d.parts.map (·.span),
      span.1 < p.start ∧ p.start < p.stop ∧ p.stop ≤ span.2 := by
  obtain ⟨text, found, mem⟩ := mem_undeclaredFaults_iff.1 mem
  obtain ⟨start, stop, part⟩ := exists_mem_of_language? found
  obtain ⟨_, r, mem, same⟩ := of_mem_undeclared mem
  have inside := (orderly.languages _ _ _ part).inOrder.mem (List.mem_map_of_mem mem)
  rw [← same] at inside
  exact ⟨(start, stop), List.mem_map_of_mem part, inside⟩

theorem nodup_innerFaults (orderly : d.Orderly) : (d.innerFaults.map (·.span)).Nodup := by
  unfold innerFaults
  rw [List.map_append, List.nodup_append']
  refine ⟨?_, nodup_undeclaredFaults orderly, ?_⟩
  . obtain ⟨spans, perm, sublist⟩ := map_span_repeated (d := d)
    exact (perm.nodup_iff.2 orderly.parts.nodup).sublist sublist
  . intro span repeated undeclared
    obtain ⟨p, mem, rfl⟩ := List.mem_map.1 undeclared
    obtain ⟨q, mem', same⟩ := List.mem_map.1 repeated
    obtain ⟨part, isPart, behind, less, within⟩ := exists_of_mem_undeclaredFaults orderly mem
    have isPart' := span_of_mem_repeated mem'
    rw [same] at isPart'
    exact orderly.parts.notMem_of_inside isPart behind less within isPart'

theorem span_of_mem_innerFaults (orderly : d.Orderly) (mem : p ∈ d.innerFaults) :
    d.start < p.start ∧ p.start < p.stop ∧ p.stop ≤ d.stop := by
  unfold innerFaults at mem
  rcases List.mem_append.1 mem with repeated | undeclared
  . exact orderly.parts.mem (span_of_mem_repeated repeated)
  . obtain ⟨part, isPart, behind, less, within⟩ :=
      exists_of_mem_undeclaredFaults orderly undeclared
    have inside := orderly.parts.mem isPart
    omega

theorem length_undeclaredFaults (orderly : d.Orderly) :
    d.undeclaredFaults.length = d.outline.undeclared.length := by
  have first : d.outline.languages.head? = d.language?.map (·.language) := by
    unfold language?
    rw [outline_languages, List.head?_map, Option.map_map]
    rfl
  unfold undeclaredFaults Outline.undeclared
  rw [outline_declared, first]
  match found : d.language? with
  | none => rfl
  | some text =>
    obtain ⟨start, stop, part⟩ := exists_mem_of_language? found
    simp only [Option.map_some, Option.getD_some]
    rw [← (orderly.languages _ _ _ part).events_eq]
    unfold undeclared
    rw [List.length_map, List.filter_map, List.length_map]
    congr
    funext r
    simp only [Function.comp_apply, List.contains_eq_mem, decide_not]

theorem language?_eq_none_iff : d.language? = none ↔ d.outline.languages.isEmpty = true := by
  unfold language?
  rw [outline_languages, Option.map_eq_none_iff, List.head?_eq_none_iff, List.isEmpty_iff,
    List.map_eq_nil_iff]

theorem length_innerFaults (orderly : d.Orderly) :
    d.innerFaults.length + (if d.language? = none then 1 else 0) = d.outline.problemCount := by
  have parts : (repeatedParts false false d.parts).length =
      (d.outline.descriptions.length - 1) + (d.outline.languages.length - 1) := by
    rw [length_repeatedParts]
    unfold outline Outline.descriptions Outline.languages
    rw [List.filterMap_map, List.filterMap_map]
    rfl
  have channels : (repeatedChannels [] d.declarations).length =
      countRepeated (·.1) (fun _ => true) d.outline.declarations := by
    rw [length_repeatedChannels, outline_declarations, countRepeated_map]
    rfl
  unfold innerFaults Outline.problemCount
  rw [List.length_append, List.length_append, parts, channels,
    length_undeclaredFaults orderly]
  simp only [language?_eq_none_iff]
  omega

end Inner

section Card

theorem errorSpans_append {qs ps : List LocatedProblem} :
    errorSpans (ps ++ qs) = errorSpans ps ∪ errorSpans qs := by
  unfold errorSpans
  rw [List.filter_append, List.map_append, List.toFinset_append]

theorem mem_errorSpans_problems_iff {span : Nat × Nat} :
    span ∈ errorSpans (d.problems earlier) ↔ span ∈ (d.innerFaults.map (·.span)).toFinset ∨
      (d.name ∈ earlier ∨ d.language? = none) ∧ span = d.span := by
  rw [mem_errorSpans_iff, List.mem_toFinset, List.mem_map]
  constructor
  . rintro ⟨p, mem, error, rfl⟩
    rw [problems_eq, List.mem_append, mem_faults_iff_inner] at mem
    rcases mem with (mem | ⟨repeated, rfl⟩ | ⟨none, rfl⟩) | mem
    . exact .inl ⟨p, mem, rfl⟩
    . exact .inr ⟨.inl repeated, rfl⟩
    . exact .inr ⟨.inr none, rfl⟩
    . rw [(of_mem_oddities mem).1] at error
      cases error
  . have fault : ∀ p ∈ d.faults earlier,
        ∃ p' ∈ d.problems earlier, p'.isError = true ∧ p'.span = p.span := by
      intro p mem
      refine ⟨p, ?_, isError_of_mem_faults mem, rfl⟩
      rw [problems_eq]
      exact List.mem_append_left _ mem
    rintro (⟨p, mem, rfl⟩ | ⟨repeated | none, rfl⟩)
    . exact fault p (mem_faults_iff_inner.2 (.inl mem))
    . exact fault _ (mem_faults_iff_inner.2 (.inr (.inl ⟨repeated, rfl⟩)))
    . exact fault _ (mem_faults_iff_inner.2 (.inr (.inr ⟨none, rfl⟩)))

theorem card_errorSpans_problems (orderly : d.Orderly) :
    (errorSpans (d.problems earlier)).card =
      d.innerFaults.length + if d.name ∈ earlier ∨ d.language? = none then 1 else 0 := by
  have inner : (d.innerFaults.map (·.span)).toFinset.card = d.innerFaults.length := by
    rw [List.toFinset_card_of_nodup (nodup_innerFaults orderly), List.length_map]
  have outside : d.span ∉ (d.innerFaults.map (·.span)).toFinset := by
    rw [List.mem_toFinset, List.mem_map]
    rintro ⟨p, mem, same⟩
    have behind := (span_of_mem_innerFaults orderly mem).1
    exact Nat.ne_of_gt behind (congrArg Prod.fst same)
  split
  . next whole =>
    rw [← inner, ← Finset.card_insert_of_notMem outside]
    congr
    ext span
    rw [mem_errorSpans_problems_iff, Finset.mem_insert, or_comm]
    simp only [whole, true_and]
  . next notWhole =>
    rw [← inner, Nat.add_zero]
    congr
    ext span
    rw [mem_errorSpans_problems_iff]
    simp only [notWhole, false_and, or_false]

theorem fileProblems_concat : fileProblems earlier (ds ++ [d]) =
    fileProblems earlier ds ++ d.problems ((ds.map (·.name)).reverse ++ earlier) := by
  induction ds generalizing earlier with
  | nil => exact List.append_nil _
  | cons head ds ih =>
    rw [List.cons_append, fileProblems, fileProblems, ih, List.append_assoc, List.map_cons,
      List.reverse_cons, List.append_assoc]
    rfl

theorem start_lt_of_mem_faults (orderly : d.Orderly) (less : d.start < d.stop)
    (mem : p ∈ d.faults earlier) : p.start < d.stop := by
  rcases mem_faults_iff_inner.1 mem with mem | ⟨_, rfl⟩ | ⟨_, rfl⟩
  . have := span_of_mem_innerFaults orderly mem
    omega
  . exact less
  . exact less

theorem disjoint_errorSpans {start stop : Nat}
    (inOrder : InOrder start ((ds ++ [d]).map (·.span)) stop)
    (orderly : ∀ d' ∈ ds ++ [d], d'.Orderly) (earlier earlier' : List String) :
    Disjoint (errorSpans (fileProblems earlier ds)) (errorSpans (d.problems earlier')) := by
  rw [Finset.disjoint_left]
  intro span mem mem'
  obtain ⟨p, mem, error, same⟩ := mem_errorSpans_iff.1 mem
  obtain ⟨q, mem', _, same'⟩ := mem_errorSpans_iff.1 mem'
  obtain ⟨d', isOld, names, mem⟩ := exists_of_mem_fileProblems mem
  have isOld' : d' ∈ ds ++ [d] := List.mem_append_left _ isOld
  have last : d ∈ ds ++ [d] := List.mem_append_right _ (List.mem_singleton_self d)
  rw [problems_eq, List.mem_append] at mem
  rcases mem with mem | mem
  . have less := (inOrder.mem (List.mem_map_of_mem isOld')).2.1
    have before := start_lt_of_mem_faults (orderly d' isOld') less mem
    have after := start_le_of_mem_problems (orderly d last) mem'
    have between : d'.stop ≤ d.start := by
      have apart := inOrder.pairwise
      rw [List.map_append, List.pairwise_append] at apart
      exact apart.2.2 _ (List.mem_map_of_mem isOld) _ (List.mem_singleton_self _)
    have start_eq : p.start = q.start := congrArg Prod.fst (same.trans same'.symm)
    omega
  . rw [(of_mem_oddities mem).1] at error
    cases error

theorem card_errorSpans_fileProblems {start stop : Nat}
    (inOrder : InOrder start (ds.map (·.span)) stop) (orderly : ∀ d ∈ ds, d.Orderly) :
    (errorSpans (fileProblems [] ds)).card + Outline.maskedCount (ds.map (·.outline)) =
      Outline.fileProblemCount (ds.map (·.outline)) := by
  induction ds using List.reverseRecOn generalizing stop with
  | nil => rfl
  | append_singleton ds d ih =>
    have last := orderly d (List.mem_append_right _ (List.mem_singleton_self d))
    have before := ih (List.map_append ▸ inOrder).of_append fun d' mem =>
      orderly d' (List.mem_append_left _ mem)
    rw [fileProblems_concat, errorSpans_append,
      Finset.card_union_of_disjoint (disjoint_errorSpans inOrder orderly _ _),
      card_errorSpans_problems last, List.map_append, List.map_singleton,
      Outline.fileProblemCount_concat, Outline.maskedCount_concat, ← before,
      ← length_innerFaults last]
    simp only [outline_names, List.append_nil, List.mem_reverse, language?_eq_none_iff]
    have name_eq : d.outline.name = d.name := rfl
    rw [name_eq]
    by_cases repeated : d.name ∈ ds.map (·.name) <;>
      by_cases silent : d.outline.languages.isEmpty = true <;>
        simp [repeated, silent] <;> omega

end Card

section Load

variable {r : Reporter} {name text : String} {os : List Outline}

/-- A definition file gets one error for each of its problems, except that a definition with the
name of an earlier one and without a language gets one for both. -/
theorem errors_load_add_masked (name : String) (reachable : r.Reachable)
    (file : Outline.FileText text.toList os) :
    (load name text r).2.errors + Outline.maskedCount os =
      r.errors + Outline.fileProblemCount os ∧
    ((load name text r).2.errors = r.errors + Outline.fileProblemCount os ↔
      os.Pairwise fun o o' => o.name = o'.name → o'.languages ≠ []) := by
  obtain ⟨ds, read, rfl⟩ := fileText_iff.1 file
  obtain ⟨c', found⟩ := run_eq_ok_iff.1 read
  obtain ⟨⟨start, stop, inOrder⟩, orderly⟩ := orderly_parseFile found
  have errors := errors_load_of_run name reachable read
  have card := card_errorSpans_fileProblems inOrder orderly
  rw [← Outline.maskedCount_eq_zero_iff, errors, ← card]
  omega

theorem errors_load_add_masked_silent :
    let text := "protocol p \x7b in a: T; language \x7b out:a \x7d \x7d protocol q \x7b \x7d"
    ∃ os, Outline.FileText text.toList os ∧ Outline.fileProblemCount os = 2 ∧
      (load "file" text (.new false true)).2.errors = 2 := by
  intro text
  have counts : ((parseFile.run text).toOption.map fun ds =>
      (Outline.fileProblemCount (ds.map (·.outline)), Outline.maskedCount (ds.map (·.outline)))) =
      some (2, 0) := by
    decide +kernel
  match read : parseFile.run text with
  | .error e =>
    rw [read] at counts
    cases counts
  | .ok ds =>
    rw [read] at counts
    obtain ⟨count, masked⟩ := Prod.mk.inj (Option.some.inj counts)
    have file : Outline.FileText text.toList (ds.map (·.outline)) :=
      fileText_iff.2 ⟨ds, read, rfl⟩
    refine ⟨_, file, count, ?_⟩
    have errors := (errors_load_add_masked "file" (.new false true) file).1
    rw [masked, count] at errors
    exact errors

/-- A definition with the name of an earlier one and without a language has two problems, but gets
one error. -/
theorem errors_load_lt_problemCount :
    let text :=
      "protocol p \x7b in a: T; language \x7b in:a \x7d \x7d protocol p \x7b \x7d"
    ∃ os, Outline.FileText text.toList os ∧ Outline.fileProblemCount os = 2 ∧
      (load "file" text (.new false true)).2.errors = 1 := by
  intro text
  have count : ((parseFile.run text).toOption.map fun ds =>
      Outline.fileProblemCount (ds.map (·.outline))) = some 2 := by
    decide +kernel
  match read : parseFile.run text with
  | .error e =>
    rw [read] at count
    cases count
  | .ok ds =>
    rw [read] at count
    exact ⟨_, fileText_iff.2 ⟨ds, read, rfl⟩, Option.some.inj count, by decide +kernel⟩

end Load

end Definition

end Interaction
