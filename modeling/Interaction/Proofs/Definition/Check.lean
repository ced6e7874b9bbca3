import Interaction.Definition.Check
import Interaction.Proofs.Definition.Located
import Mathlib.Data.List.Nodup

/-!
This module contains which problems definitions have: none of them is an error exactly if the
definitions are well formed, and no error is at the place of a warning that comes before it.
-/

namespace Interaction

namespace LocatedProblem

def isError (p : LocatedProblem) : Bool := p.problem.severity = .error

def span (p : LocatedProblem) : Nat × Nat := (p.start, p.stop)

end LocatedProblem

namespace Definition

variable {d : Definition} {ds : List Definition} {p : LocatedProblem} {part : DefinitionPart}
variable {parts : List DefinitionPart} {cs : List ChannelDeclaration} {text : LanguageText}
variable {described spoken : Bool} {declared : List Event} {earlier : List String}

section Outlines

theorem filterMap_outline {α β : Type} {f : OutlinePart → Option β}
    {g : DefinitionPart → Option α} {h : α → β} (same : ∀ part, f part.outline = (g part).map h) :
    d.outline.parts.filterMap f = (d.parts.filterMap g).map h := by
  unfold outline
  rw [List.filterMap_map, List.map_filterMap]
  congr
  funext part
  exact same part

theorem outline_descriptions :
    d.outline.descriptions = d.descriptions.map (.ofList ·.1) := by
  apply filterMap_outline
  intro part
  cases part <;> rfl

theorem outline_declarations :
    d.outline.declarations = d.declarations.map fun c => (c.event, c.payload) := by
  apply filterMap_outline
  intro part
  cases part <;> rfl

theorem outline_languages : d.outline.languages = d.languages.map (·.1.language) := by
  apply filterMap_outline
  intro part
  cases part <;> rfl

theorem mem_declarations_iff {c : ChannelDeclaration} :
    c ∈ d.declarations ↔ .channel c ∈ d.parts := by
  unfold declarations
  rw [List.mem_filterMap]
  constructor
  . rintro ⟨part, mem, found⟩
    cases part <;> cases found
    exact mem
  . intro mem
    exact ⟨_, mem, rfl⟩

theorem exists_mem_of_language? (h : d.language? = some text) :
    ∃ start stop, .language text start stop ∈ d.parts := by
  unfold language? at h
  rw [Option.map_eq_some_iff] at h
  obtain ⟨⟨_, start, stop⟩, found, rfl⟩ := h
  have mem := List.mem_of_mem_head? found
  unfold languages at mem
  rw [List.mem_filterMap] at mem
  obtain ⟨part, mem, found⟩ := mem
  cases part <;> cases found
  exact ⟨start, stop, mem⟩

end Outlines

section Faults

def faults (d : Definition) (earlier : List String) : List LocatedProblem :=
  repeatedParts false false d.parts ++
    (if earlier.contains d.name then [⟨.repeatedName d.name, d.start, d.stop⟩] else []) ++
    repeatedChannels [] d.declarations ++
    match d.language? with
    | none => [⟨.noLanguage d.name, d.start, d.stop⟩]
    | some text => d.undeclared text

def oddities (d : Definition) : List LocatedProblem :=
  match d.language? with
  | none => []
  | some text => d.unused text

theorem problems_eq : d.problems earlier = d.faults earlier ++ d.oddities := by
  unfold problems faults oddities
  cases d.language? <;> simp

theorem mem_ite_append {q : LocatedProblem} {c : Prop} [Decidable c] {ps : List LocatedProblem} :
    p ∈ (if c then [q] else []) ++ ps ↔ (c ∧ p = q) ∨ p ∈ ps := by
  split <;> simp [*]

theorem of_mem_repeatedParts (mem : p ∈ repeatedParts described spoken parts) :
    p.isError = true ∧ ∃ part ∈ parts, p.span = part.span := by
  induction parts generalizing described spoken with
  | nil => cases mem
  | cons part parts ih =>
    have later : ∀ {described spoken}, p ∈ repeatedParts described spoken parts →
        p.isError = true ∧ ∃ part' ∈ part :: parts, p.span = part'.span := by
      intro _ _ mem
      obtain ⟨isError, part', mem, same⟩ := ih mem
      exact ⟨isError, part', List.mem_cons_of_mem _ mem, same⟩
    cases part with
    | description =>
      rw [repeatedParts, mem_ite_append] at mem
      rcases mem with ⟨_, rfl⟩ | mem
      . exact ⟨rfl, _, List.mem_cons_self, rfl⟩
      . exact later mem
    | channel => exact later mem
    | language =>
      rw [repeatedParts, mem_ite_append] at mem
      rcases mem with ⟨_, rfl⟩ | mem
      . exact ⟨rfl, _, List.mem_cons_self, rfl⟩
      . exact later mem

theorem of_mem_repeatedChannels (mem : p ∈ repeatedChannels declared cs) :
    p.isError = true ∧ ∃ c ∈ cs, p.span = (c.start, c.stop) := by
  induction cs generalizing declared with
  | nil => cases mem
  | cons c cs ih =>
    rw [repeatedChannels, mem_ite_append] at mem
    rcases mem with ⟨_, rfl⟩ | mem
    . exact ⟨rfl, c, List.mem_cons_self, rfl⟩
    . obtain ⟨isError, c', mem, same⟩ := ih mem
      exact ⟨isError, c', List.mem_cons_of_mem _ mem, same⟩

theorem of_mem_undeclared (mem : p ∈ d.undeclared text) :
    p.isError = true ∧ ∃ r ∈ text.references, p.span = r.span := by
  unfold undeclared at mem
  obtain ⟨r, kept, rfl⟩ := List.mem_map.1 mem
  exact ⟨rfl, r, List.mem_of_mem_filter kept, rfl⟩

theorem of_mem_unused (mem : p ∈ d.unused text) :
    p.isError = false ∧ ∃ c ∈ d.declarations, p.span = (c.start, c.stop) := by
  unfold unused at mem
  obtain ⟨c, kept, rfl⟩ := List.mem_map.1 mem
  exact ⟨rfl, c, List.mem_of_mem_filter kept, rfl⟩

theorem of_mem_oddities (mem : p ∈ d.oddities) :
    p.isError = false ∧ ∃ c ∈ d.declarations, p.span = (c.start, c.stop) := by
  unfold oddities at mem
  split at mem
  . cases mem
  . exact of_mem_unused mem

theorem mem_faults_iff : p ∈ d.faults earlier ↔
    p ∈ repeatedParts false false d.parts ∨
    (d.name ∈ earlier ∧ p = ⟨.repeatedName d.name, d.start, d.stop⟩) ∨
    p ∈ repeatedChannels [] d.declarations ∨
    (d.language? = none ∧ p = ⟨.noLanguage d.name, d.start, d.stop⟩) ∨
    ∃ text, d.language? = some text ∧ p ∈ d.undeclared text := by
  unfold faults
  rw [List.append_assoc, List.append_assoc, List.mem_append, mem_ite_append, List.mem_append,
    List.contains_iff_mem]
  cases d.language? <;> simp

theorem isError_of_mem_faults (mem : p ∈ d.faults earlier) : p.isError = true := by
  rw [mem_faults_iff] at mem
  rcases mem with mem | ⟨_, rfl⟩ | mem | ⟨_, rfl⟩ | ⟨text, _, mem⟩
  . exact (of_mem_repeatedParts mem).1
  . rfl
  . exact (of_mem_repeatedChannels mem).1
  . rfl
  . exact (of_mem_undeclared mem).1

end Faults

section Spans

theorem start_le_of_mem_problems (orderly : d.Orderly) (mem : p ∈ d.problems earlier) :
    d.start ≤ p.start := by
  have ofPart : ∀ part ∈ d.parts, d.start < part.span.1 := fun part mem =>
    (orderly.parts.mem (List.mem_map_of_mem mem)).1
  have ofSpan : ∀ n m, p.span = (n, m) → d.start ≤ n → d.start ≤ p.start := by
    intro n m same le
    exact (Prod.mk.inj same).1 ▸ le
  have ofChannel : (∃ c ∈ d.declarations, p.span = (c.start, c.stop)) → d.start ≤ p.start := by
    rintro ⟨c, mem, same⟩
    exact ofSpan _ _ same (Nat.le_of_lt (ofPart _ (mem_declarations_iff.1 mem)))
  rw [problems_eq, List.mem_append, mem_faults_iff] at mem
  rcases mem with (mem | ⟨_, rfl⟩ | mem | ⟨_, rfl⟩ | ⟨text, spoken, mem⟩) | mem
  . obtain ⟨_, part, mem, same⟩ := of_mem_repeatedParts mem
    exact ofSpan _ _ same (Nat.le_of_lt (ofPart part mem))
  . exact Nat.le_refl _
  . exact ofChannel (of_mem_repeatedChannels mem).2
  . exact Nat.le_refl _
  . obtain ⟨_, r, mem, same⟩ := of_mem_undeclared mem
    obtain ⟨start, stop, part⟩ := exists_mem_of_language? spoken
    have inside := ((orderly.languages _ _ _ part).inOrder.mem (List.mem_map_of_mem mem)).1
    have after := ofPart _ part
    apply ofSpan _ _ same
    exact Nat.le_trans (Nat.le_of_lt after) (Nat.le_of_lt inside)
  . exact ofChannel (of_mem_oddities mem).2

theorem span_of_mem_oddities (orderly : d.Orderly) (mem : p ∈ d.oddities) :
    p.start < p.stop ∧ p.stop ≤ d.stop := by
  obtain ⟨_, c, mem, same⟩ := of_mem_oddities mem
  have inside := (orderly.parts.mem (List.mem_map_of_mem (mem_declarations_iff.1 mem))).2
  obtain ⟨start_eq, stop_eq⟩ := Prod.mk.inj same
  rw [start_eq, stop_eq]
  exact inside

/-- Whether two problems are not a warning and an error about the same span. -/
def Apart (p q : LocatedProblem) : Prop :=
  p.isError = false → q.isError = true → p.span ≠ q.span

theorem exists_of_mem_fileProblems (mem : p ∈ fileProblems earlier ds) :
    ∃ d ∈ ds, ∃ earlier, p ∈ d.problems earlier := by
  induction ds generalizing earlier with
  | nil => cases mem
  | cons d ds ih =>
    rw [fileProblems, List.mem_append] at mem
    rcases mem with mem | mem
    . exact ⟨d, List.mem_cons_self, earlier, mem⟩
    . obtain ⟨d', mem, rest⟩ := ih mem
      exact ⟨d', List.mem_cons_of_mem _ mem, rest⟩

theorem apart_of_error {q : LocatedProblem} (h : p.isError = true) : Apart p q := by
  intro warning
  rw [h] at warning
  cases warning

theorem apart_of_warning {q : LocatedProblem} (h : q.isError = false) : Apart p q := by
  intro _ error
  rw [h] at error
  cases error

theorem pairwise_apart_problems : (d.problems earlier).Pairwise Apart := by
  rw [problems_eq, List.pairwise_append]
  refine ⟨?_, ?_, ?_⟩
  . apply List.pairwise_of_forall_mem_list
    exact fun p mem q _ => apart_of_error (isError_of_mem_faults mem)
  . apply List.pairwise_of_forall_mem_list
    exact fun p _ q mem => apart_of_warning (of_mem_oddities mem).1
  . exact fun p mem q _ => apart_of_error (isError_of_mem_faults mem)

theorem pairwise_apart_fileProblems (earlier : List String)
    (inOrder : (ds.map (·.span)).Pairwise fun a b => a.2 ≤ b.1)
    (orderly : ∀ d ∈ ds, d.Orderly) : (fileProblems earlier ds).Pairwise Apart := by
  induction ds generalizing earlier with
  | nil => exact .nil
  | cons d ds ih =>
    rw [List.map_cons, List.pairwise_cons] at inOrder
    have orderly' : ∀ d' ∈ ds, d'.Orderly := fun d' mem => orderly d' (List.mem_cons_of_mem _ mem)
    rw [fileProblems, List.pairwise_append]
    refine ⟨pairwise_apart_problems, ih _ inOrder.2 orderly', ?_⟩
    intro p mem q mem'
    rw [problems_eq, List.mem_append] at mem
    rcases mem with mem | mem
    . exact apart_of_error (isError_of_mem_faults mem)
    . -- the warning lies inside its definition, and the error behind it
      intro _ _ same
      obtain ⟨less, inside⟩ := span_of_mem_oddities (orderly d List.mem_cons_self) mem
      obtain ⟨d', mem', earlier', problem⟩ := exists_of_mem_fileProblems mem'
      have behind := inOrder.1 _ (List.mem_map_of_mem mem')
      have start := start_le_of_mem_problems (orderly' d' mem') problem
      have start_eq : p.start = q.start := (Prod.mk.inj same).1
      simp only [span] at behind
      omega

end Spans

section WellFormed

theorem repeatedParts_eq_nil_iff : repeatedParts described spoken parts = [] ↔
    (parts.filterMap (·.outline.description?)).length + described.toNat ≤ 1 ∧
    (parts.filterMap (·.outline.language?)).length + spoken.toNat ≤ 1 := by
  -- a flag that is set stands for a part before these
  induction parts generalizing described spoken with
  | nil => cases described <;> cases spoken <;> simp [repeatedParts]
  | cons part parts ih =>
    cases part with
    | description =>
      simp only [repeatedParts, List.append_eq_nil_iff, ih]
      cases described <;> cases spoken <;>
        simp [DefinitionPart.outline, OutlinePart.description?, OutlinePart.language?]
    | channel =>
      simp only [repeatedParts, ih]
      simp [DefinitionPart.outline, OutlinePart.description?, OutlinePart.language?]
    | language =>
      simp only [repeatedParts, List.append_eq_nil_iff, ih]
      cases described <;> cases spoken <;>
        simp [DefinitionPart.outline, OutlinePart.description?, OutlinePart.language?]

theorem repeatedChannels_eq_nil_iff : repeatedChannels declared cs = [] ↔
    (cs.map (·.event)).Nodup ∧ ∀ c ∈ cs, c.event ∉ declared := by
  induction cs generalizing declared with
  | nil => simp [repeatedChannels]
  | cons c cs ih =>
    have head : (if declared.contains c.event then
        [(⟨.repeatedChannel c.event, c.start, c.stop⟩ : LocatedProblem)] else []) = [] ↔
        c.event ∉ declared := by
      simp
    rw [repeatedChannels, List.append_eq_nil_iff, head, ih, List.map_cons, List.nodup_cons,
      List.forall_mem_cons]
    simp only [List.mem_cons, not_or, List.mem_map, not_exists, not_and]
    constructor
    . rintro ⟨new, nodup, others⟩
      exact ⟨⟨fun c' mem => (others c' mem).1, nodup⟩, new, fun c' mem => (others c' mem).2⟩
    . rintro ⟨⟨different, nodup⟩, new, others⟩
      exact ⟨new, nodup, fun c' mem => ⟨different c' mem, others c' mem⟩⟩

theorem undeclared_eq_nil_iff : d.undeclared text = [] ↔
    ∀ r ∈ text.references, r.event ∈ d.declarations.map (·.event) := by
  unfold undeclared
  simp

theorem outline_declared :
    d.outline.declarations.map (·.1) = d.declarations.map (·.event) := by
  rw [outline_declarations, List.map_map]
  rfl

theorem exists_language?_of_outline (one : d.outline.languages.length = 1) :
    ∃ text, d.language? = some text := by
  rw [outline_languages, List.length_map, List.length_eq_one_iff] at one
  obtain ⟨⟨text, _⟩, eq⟩ := one
  unfold language?
  rw [eq]
  exact ⟨text, rfl⟩

theorem outline_languages_of (found : d.language? = some text)
    (le : d.outline.languages.length ≤ 1) : d.outline.languages = [text.language] := by
  unfold language? at found
  rw [outline_languages] at le ⊢
  match spoken : d.languages with
  | [] =>
    rw [spoken] at found
    cases found
  | [_] =>
    rw [spoken] at found
    cases found
    rfl
  | _ :: _ :: _ =>
    rw [spoken] at le
    simp at le

theorem repeatedParts_eq_nil_iff_outline : repeatedParts false false d.parts = [] ↔
    d.outline.descriptions.length ≤ 1 ∧ d.outline.languages.length ≤ 1 := by
  rw [repeatedParts_eq_nil_iff]
  unfold outline Outline.descriptions Outline.languages
  rw [List.filterMap_map, List.filterMap_map]
  rfl

theorem undeclared_eq_nil_iff_outline (orderly : d.Orderly) (found : d.language? = some text) :
    d.undeclared text = [] ↔
      ∀ e ∈ text.language.events, e ∈ d.outline.declarations.map (·.1) := by
  obtain ⟨_, _, mem⟩ := exists_mem_of_language? found
  rw [undeclared_eq_nil_iff, ← (orderly.languages _ _ _ mem).events_eq, outline_declared,
    List.forall_mem_map]

theorem faults_eq_nil_iff (orderly : d.Orderly) :
    d.faults earlier = [] ↔ d.name ∉ earlier ∧ d.outline.WellFormed := by
  have different : repeatedChannels [] d.declarations = [] ↔
      (d.outline.declarations.map (·.1)).Nodup := by
    rw [repeatedChannels_eq_nil_iff, outline_declared]
    simp
  have new : (if earlier.contains d.name then
      [(⟨.repeatedName d.name, d.start, d.stop⟩ : LocatedProblem)] else []) = [] ↔
      d.name ∉ earlier := by
    simp
  unfold faults
  rw [List.append_eq_nil_iff, List.append_eq_nil_iff, List.append_eq_nil_iff,
    repeatedParts_eq_nil_iff_outline, new, different]
  constructor
  . rintro ⟨⟨⟨⟨described, spoken⟩, new⟩, declaredOnce⟩, last⟩
    match found : d.language? with
    | none =>
      rw [found] at last
      cases last
    | some text =>
      rw [found] at last
      have languages := outline_languages_of found spoken
      refine ⟨new, described, congrArg List.length languages, declaredOnce, ?_⟩
      rw [languages, List.forall_mem_singleton]
      exact (undeclared_eq_nil_iff_outline orderly found).1 last
  . rintro ⟨new, wellFormed⟩
    have spoken := Nat.le_of_eq wellFormed.oneLanguage
    obtain ⟨text, found⟩ := exists_language?_of_outline wellFormed.oneLanguage
    have languages := outline_languages_of found spoken
    refine ⟨⟨⟨⟨wellFormed.describedOnce, spoken⟩, new⟩, wellFormed.declaredOnce⟩, ?_⟩
    rw [found]
    apply (undeclared_eq_nil_iff_outline orderly found).2
    apply wellFormed.declared
    rw [languages]
    exact List.mem_singleton_self _

theorem noError_problems_iff :
    (∀ p ∈ d.problems earlier, p.isError = false) ↔ d.faults earlier = [] := by
  rw [problems_eq, List.forall_mem_append, List.eq_nil_iff_forall_not_mem]
  constructor
  . rintro ⟨none, _⟩ p mem
    have error := isError_of_mem_faults mem
    rw [none p mem] at error
    cases error
  . intro none
    exact ⟨fun p mem => absurd mem (none p), fun p mem => (of_mem_oddities mem).1⟩

theorem outline_names : (ds.map (·.outline)).map (·.name) = ds.map (·.name) := by
  rw [List.map_map]
  rfl

theorem noError_fileProblems_iff (orderly : ∀ d ∈ ds, d.Orderly) :
    (∀ p ∈ fileProblems earlier ds, p.isError = false) ↔
      (∀ d ∈ ds, d.name ∉ earlier) ∧ (ds.map (·.name)).Nodup ∧
        ∀ d ∈ ds, d.outline.WellFormed := by
  induction ds generalizing earlier with
  | nil => simp [fileProblems]
  | cons d ds ih =>
    rw [List.forall_mem_cons] at orderly
    rw [fileProblems, List.forall_mem_append, noError_problems_iff, faults_eq_nil_iff orderly.1,
      ih orderly.2, List.forall_mem_cons, List.forall_mem_cons, List.map_cons, List.nodup_cons]
    simp only [List.mem_cons, not_or, List.mem_map, not_exists, not_and]
    constructor
    . rintro ⟨⟨new, first⟩, others, differentNames, each⟩
      exact ⟨⟨new, fun d' mem => (others d' mem).2⟩,
        ⟨fun d' mem => (others d' mem).1, differentNames⟩, first, each⟩
    . rintro ⟨⟨new, others⟩, ⟨different, differentNames⟩, first, each⟩
      exact ⟨⟨new, first⟩, fun d' mem => ⟨different d' mem, others d' mem⟩, differentNames, each⟩

theorem noError_iff (orderly : ∀ d ∈ ds, d.Orderly) :
    (∀ p ∈ fileProblems [] ds, p.isError = false) ↔
      Outline.AllWellFormed (ds.map (·.outline)) := by
  rw [noError_fileProblems_iff orderly]
  constructor
  . rintro ⟨_, differentNames, each⟩
    exact ⟨outline_names ▸ differentNames, List.forall_mem_map.2 each⟩
  . rintro ⟨differentNames, each⟩
    exact ⟨by simp, outline_names ▸ differentNames, List.forall_mem_map.1 each⟩

end WellFormed

end Definition

end Interaction
