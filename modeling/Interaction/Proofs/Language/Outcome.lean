import Interaction.Proofs.Language.Accepted
import Interaction.Proofs.Language.Located
import Interaction.Proofs.Language.Standing
import Interaction.Proofs.Parsing.Furthest
import Interaction.Proofs.Parsing.Relation

/-!
This module contains how far the reader of languages comes. It fails where no piece of the text may
come next, but it does not say so everywhere: separators and parentheses have no names, so that
nothing is recorded where only they may come next.
-/

namespace Interaction

open Interaction.Parser

def Stage.triesBefore : Stage → Piece → Bool
  | .operand, .keyword .input => false
  | .operand, _ => true
  | .name, _ => false
  | .sign, .sign .star => false
  | .sign, _ => true
  | .joint, _ => false

def Stage.due (stage : Stage) (c : Cursor) : Nat := if stage = .joint then 0 else c.offset

def Stage.recorded (stage : Stage) (p : Piece) (c : Cursor) : Nat :=
  if stage.triesBefore p then c.offset else 0

structure Cursor.Passed (stage : Stage) (c c' : Cursor) : Prop where
  reaches : c.Reaches c'
  gap : stage.Gap c.rest c'.rest

/-- Whether pieces lead from one place to another, and the last place recorded on the way. -/
inductive Walk : Standing → Cursor → List Piece → Nat → Standing → Cursor → Prop where
  | done {s : Standing} {c c' : Cursor} : c.Passed s.stage c' → Walk s c [] 0 s c'
  | step {s s' t : Standing} {p : Piece} {ps : List Piece} {n : Nat} {c c₁ c₂ c' : Cursor} :
    c.Passed s.stage c₁ → c₁.Reaches c₂ → p.Takes c₁.rest c₂.rest → s.Step p s' →
      Walk s' c₂ ps n t c' → Walk s c (p :: ps) (max (s.stage.recorded p c₁) n) t c'

def NoSign (text : List Char) : Prop := ∀ s : Sign, ¬s.text.toList <+: text

def NoSeparator (ks : List Joint) (text : List Char) : Prop :=
  ∀ k ∈ ks, ¬k.separator.text.toList <+: text

structure EndsAt (ks : List Joint) (stage : Stage) (c' last : Cursor) : Prop where
  passed : c'.Passed .joint last
  settled : Settled last.rest
  stage_eq : stage = .sign ∨ stage = .joint
  noSign : stage = .sign → NoSign last.rest
  noSeparator : NoSeparator ks last.rest

def EndsWell (ks : List Joint) (s : Standing) (c c' : Cursor) (reach : Nat) : Prop :=
  ∃ ps n stage last, Walk s c ps n ⟨s.depth, stage⟩ last ∧ EndsAt ks stage c' last ∧
    reach = max n (stage.due last)

/-- Whether a reader came to a place where no piece comes next. -/
def BreaksOff (s : Standing) (c : Cursor) (reach : Nat) : Prop :=
  ∃ ps n t last, Walk s c ps n t last ∧ t.Stuck last.rest ∧ ¬t.Complete ∧
    reach = max n (t.stage.due last)

def StopsBefore (ks : List Joint) (c' : Cursor) (reach : Nat) : Prop :=
  ∃ c₁ rest, ∃ k ∈ ks, c'.Passed .joint c₁ ∧ c₁.rest = k.separator.text.toList ++ rest ∧
    c₁.offset ≤ reach

def Ending {α : Type} (ks : List Joint) (depth : Nat) (p : Parser α) (c : Cursor) : Prop :=
  (∃ a c', p.result c = some (a, c') ∧ EndsWell ks ⟨depth, .operand⟩ c c' (p.reach c)) ∨
  (BreaksOff ⟨depth, .operand⟩ c (p.reach c) ∧
    ((p.result c = none ∧ c.offset ≤ p.reach c) ∨
      ∃ a c', p.result c = some (a, c') ∧ StopsBefore ks c' (p.reach c)))

variable {α : Type} {p : Parser α} {choice element : Parser LanguageText}
variable {stage : Stage} {s s' t : Standing} {ps qs : List Piece} {q : Piece} {k : Joint}
variable {ks : List Joint} {depth m n reach : Nat} {c c₁ c₂ c' last : Cursor} {rest : List Char}

namespace Cursor

theorem eq_of_reaches (h : c.Reaches c₁) (h' : c.Reaches c₂) (eq : c₁.rest = c₂.rest) :
    c₁ = c₂ := by
  obtain ⟨a, first⟩ := h
  obtain ⟨b, second⟩ := h'
  have same : a = b := by
    have whole := first.rest_eq.symm.trans second.rest_eq
    rwa [eq, List.append_cancel_right_eq] at whole
  have offsets : c₁.offset = c₂.offset := by rw [first.offset_eq, second.offset_eq, same]
  have lefts : c₁.left = c₂.left := by rw [c₁.left_eq, c₂.left_eq, eq]
  cases c₁
  cases c₂
  simp only at eq offsets lefts
  simp only [mk.injEq]
  exact ⟨offsets, eq, lefts⟩

theorem Passed.refl (stage : Stage) (c : Cursor) : c.Passed stage c :=
  ⟨.refl c, Stage.gap_refl _ _⟩

theorem Passed.trans (h : c.Passed stage c₁) (h' : c₁.Passed stage c₂) : c.Passed stage c₂ :=
  ⟨h.reaches.trans h'.reaches, h.gap.trans h'.gap⟩

theorem Passed.of_ne (h : c.Passed .joint c₁) (ne : stage ≠ .name) : c.Passed stage c₁ :=
  ⟨h.reaches, (Stage.gap_iff_of_ne ne).2 h.gap⟩

theorem Passed.result_layout (h : c.Passed .joint c₁) (settled : Settled c₁.rest) :
    layout.result c = some ((), c₁) := by
  obtain ⟨c₂, found, same⟩ := result_layout_of h.gap.skips settled
  rw [found, eq_of_reaches (advances_layout c () c₂ found) h.reaches same]

theorem passed_of_layout (h : layout.result c = some ((), c')) :
    c.Passed .joint c' ∧ Settled c'.rest :=
  ⟨⟨advances_layout c () c' h, (skips_of_layout h).1⟩, (skips_of_layout h).2⟩

end Cursor

namespace Walk

theorem trans (h : Walk s c ps m s' c₁) (h' : Walk s' c₁ qs n t c₂) :
    Walk s c (ps ++ qs) (max m n) t c₂ := by
  induction h with
  | done passed =>
    rw [Nat.zero_max]
    cases h' with
    | done passed' => exact .done (passed.trans passed')
    | step passed' reaches takes step inner =>
      exact .step (passed.trans passed') reaches takes step inner
  | step passed reaches takes step _ ih =>
    rw [Nat.max_assoc]
    exact .step passed reaches takes step (ih h')

theorem leads (h : Walk s c ps n t c') : Leads s c.rest ps t c'.rest := by
  induction h with
  | done passed => exact .done passed.gap
  | step passed _ takes step _ ih => exact .step passed.gap takes step ih

theorem reaches (h : Walk s c ps n t c') : c.Reaches c' := by
  induction h with
  | done passed => exact passed.reaches
  | step passed reaches _ _ _ ih => exact (passed.reaches.trans reaches).trans ih

theorem le_offset (h : Walk s c ps n t c') : n ≤ c'.offset := by
  induction h with
  | done => exact Nat.zero_le _
  | step passed reaches _ _ walk ih =>
    have := (reaches.trans walk.reaches).offset_le
    unfold Stage.recorded
    split <;> omega

theorem single (takes : q.Takes c.rest c₁.rest) (reaches : c.Reaches c₁) (step : s.Step q s')
    (passed : c₁.Passed s'.stage c₂) : Walk s c [q] (s.stage.recorded q c) s' c₂ := by
  have walk := Walk.step (.refl _ c) reaches takes step (.done passed)
  rwa [Nat.max_zero] at walk

end Walk

theorem EndsWell.prepend (h : EndsWell ks s' c₁ c' reach) (walk : Walk s c ps m s' c₁)
    (same : s'.depth = s.depth) : EndsWell ks s c c' (max m reach) := by
  obtain ⟨qs, n, stage, last, further, ends, rfl⟩ := h
  refine ⟨ps ++ qs, max m n, stage, last, ?_, ends, (Nat.max_assoc _ _ _).symm⟩
  rw [same] at further
  exact walk.trans further

theorem BreaksOff.prepend (h : BreaksOff s' c₁ reach) (walk : Walk s c ps m s' c₁) :
    BreaksOff s c (max m reach) := by
  obtain ⟨qs, n, t, last, further, stuck, incomplete, rfl⟩ := h
  exact ⟨ps ++ qs, max m n, t, last, walk.trans further, stuck, incomplete,
    (Nat.max_assoc _ _ _).symm⟩

theorem Stage.not_complete (noSign : stage ≠ .sign) (noJoint : stage ≠ .joint) :
    ¬Standing.Complete ⟨depth, stage⟩ :=
  fun complete => complete.stage_eq.elim noSign noJoint

theorem breaksOff_of_stuck (stuck : s.Stuck c.rest) (incomplete : ¬s.Complete) :
    BreaksOff s c (s.stage.due c) :=
  ⟨[], 0, s, c, .done (.refl _ c), stuck, incomplete, (Nat.zero_max _).symm⟩

theorem StopsBefore.mono {ks' : List Joint} {reach' : Nat} (h : StopsBefore ks c' reach)
    (sub : ks ⊆ ks') (le : reach ≤ reach') : StopsBefore ks' c' reach' := by
  obtain ⟨c₁, rest, k, mem, passed, text, le'⟩ := h
  exact ⟨c₁, rest, k, sub mem, passed, text, Nat.le_trans le' le⟩

theorem Ending.congr {q : Parser α} (h : Ending ks depth p c) (result : p.result c = q.result c)
    (reach : p.reach c = q.reach c) : Ending ks depth q c := by
  unfold Ending at *
  rwa [← result, ← reach]

theorem Ending.expecting {x : Expectation} (h : Ending ks depth p c) :
    Ending ks depth (Parser.expecting x p) c := by
  have found : ∀ a c', p.result c = some (a, c') →
      (Parser.expecting x p).result c = some (a, c') ∧
        (Parser.expecting x p).reach c = p.reach c :=
    fun a c' found => ⟨result_expecting.trans found, reach_expecting_of found⟩
  rcases h with ⟨a, c', result, ends⟩ | ⟨breaks, ⟨none, le⟩ | ⟨a, c', result, stops⟩⟩
  . obtain ⟨result', reach'⟩ := found a c' result
    exact .inl ⟨a, c', result', reach' ▸ ends⟩
  . have reach' : (Parser.expecting x p).reach c = p.reach c := by
      rw [reach_expecting_of_none none]
      omega
    exact .inr ⟨reach' ▸ breaks, .inl ⟨result_expecting.trans none, reach' ▸ le⟩⟩
  . obtain ⟨result', reach'⟩ := found a c' result
    exact .inr ⟨reach' ▸ breaks, .inr ⟨a, c', result', reach' ▸ stops⟩⟩

def Joint.piece : Joint → Piece
  | .sequence => .semicolon
  | .choice => .bar

theorem Joint.piece_mem_fixed (k : Joint) : k.piece ∈ Piece.fixed := by
  cases k <;> decide

theorem Joint.takes_piece (k : Joint) {text : List Char}
    (eq : text = k.separator.text.toList ++ rest) : k.piece.Takes text rest := by
  apply Piece.takes_of_mem_fixed k.piece_mem_fixed
  cases k <;> exact eq

namespace Language

theorem reach_event_offset (q : Nat → Parser LanguageText) (c : Cursor) :
    (do let start ← offset; q start : Parser LanguageText).reach c = (q c.offset).reach c :=
  reach_bind_of_nameless nameless_offset result_offset

theorem parseEvent_of_absent {x : Expectation} {d : Direction}
    (absent : ¬(Piece.keyword d).text.toList <+: c.rest) :
    (parseEvent x d).result c = none ∧ (parseEvent x d).reach c = c.offset := by
  have none := result_parseEvent_of_absent (x := x) absent
  have absent' := result_literal_of_absent (s := d.word ++ ":") absent
  refine ⟨none, ?_⟩
  unfold parseEvent at none ⊢
  rw [result_expecting] at none
  rw [reach_expecting_of_none none, reach_event_offset, reach_bind_of_none absent',
    nameless_literal]
  exact Nat.max_zero _

theorem parseEvent_of_unnamed {x : Expectation} {d : Direction}
    (found : (literal (d.word ++ ":")).result c = some ((), c₁)) (unnamed : name.result c₁ = none) :
    (parseEvent x d).result c = none ∧ (parseEvent x d).reach c = c₁.offset := by
  have none : (parseEvent x d).result c = none := by
    unfold parseEvent
    rw [result_expecting, result_bind_of result_offset, result_bind_of found,
      result_bind_of_none unnamed]
  refine ⟨none, ?_⟩
  unfold parseEvent at none ⊢
  rw [result_expecting] at none
  rw [reach_expecting_of_none none, reach_event_offset,
    reach_bind_of_nameless (nameless_literal _) found, reach_bind_of_none unnamed,
    reach_name_of_none unnamed]
  have := (passes_of_literal found).offset_eq
  omega

theorem parseEvent_of_named {x : Expectation} {d : Direction} {n : String}
    (found : (literal (d.word ++ ":")).result c = some ((), c₁))
    (named : name.result c₁ = some (n, c')) :
    (∃ t, (parseEvent x d).result c = some (t, c')) ∧ (parseEvent x d).reach c = 0 := by
  have result : ∃ t, (parseEvent x d).result c = some (t, c') := by
    unfold parseEvent
    rw [result_expecting, result_bind_of result_offset, result_bind_of found,
      result_bind_of named]
    exact ⟨_, rfl⟩
  refine ⟨result, ?_⟩
  obtain ⟨t, result⟩ := result
  unfold parseEvent at result ⊢
  rw [result_expecting] at result
  rw [reach_expecting_of result, reach_event_offset,
    reach_bind_of_nameless (nameless_literal _) found, reach_bind_of named, reach_name_of named,
    Nat.zero_max]
  rfl

theorem parseEvent_cases (x : Expectation) (d : Direction) (c : Cursor) :
    (¬(Piece.keyword d).text.toList <+: c.rest ∧ (parseEvent x d).result c = none ∧
      (parseEvent x d).reach c = c.offset) ∨
    ∃ c₁, c.Passes (Piece.keyword d).text.toList c₁ ∧
      ((name.result c₁ = none ∧ (parseEvent x d).result c = none ∧
          (parseEvent x d).reach c = c₁.offset) ∨
        ∃ n t c', name.result c₁ = some (n, c') ∧ (parseEvent x d).result c = some (t, c') ∧
          (parseEvent x d).reach c = 0) := by
  by_cases keyword : (Piece.keyword d).text.toList <+: c.rest
  . obtain ⟨rest, eq⟩ := keyword
    obtain ⟨c₁, found, _⟩ := result_literal_of (s := d.word ++ ":") eq.symm
    refine .inr ⟨c₁, passes_of_literal found, ?_⟩
    match named : name.result c₁ with
    | none => exact .inl ⟨rfl, parseEvent_of_unnamed found named⟩
    | some (n, c') =>
      obtain ⟨⟨t, result⟩, reach⟩ := parseEvent_of_named (x := x) found named
      exact .inr ⟨n, t, c', rfl, result, reach⟩
  . exact .inl ⟨keyword, parseEvent_of_absent keyword⟩

theorem not_prefix_of_takes {p q : Piece} {text : List Char} (takes : p.Takes text rest)
    (mem : p ∈ Piece.fixed) (mem' : q ∈ Piece.fixed) (ne : p ≠ q) : ¬q.text.toList <+: text := by
  rintro ⟨rest', eq⟩
  exact ne (takes.eq_of_mem_fixed (Piece.takes_of_mem_fixed mem' eq.symm) mem mem')

theorem stuck_of_name (none : name.result c = none) : Standing.Stuck ⟨depth, .name⟩ c.rest := by
  refine ⟨fun other => absurd rfl other, ?_⟩
  intro p rest s' takes step
  obtain ⟨n, rfl⟩ := (Stage.allows_name_iff step.allowed).2 rfl
  obtain ⟨c', found, _⟩ := result_name_of (takes.isName n rfl) takes.text_eq (takes.ends n rfl)
  rw [none] at found
  cases found

theorem walk_keyword {d : Direction} (passes : c.Passes (Piece.keyword d).text.toList c₁) :
    Walk ⟨depth, .operand⟩ c [.keyword d] (Stage.operand.recorded (.keyword d) c)
      ⟨depth, .name⟩ c₁ := by
  have takes : (Piece.keyword d).Takes c.rest c₁.rest :=
    Piece.takes_of_mem_fixed (by cases d <;> decide) passes.rest_eq
  exact .single takes ⟨_, passes⟩ ⟨rfl, rfl, rfl⟩ (.refl _ c₁)

theorem walk_event {d : Direction} {n : String}
    (passes : c.Passes (Piece.keyword d).text.toList c₁) (named : name.result c₁ = some (n, c')) :
    Walk ⟨depth, .operand⟩ c [.keyword d, .name n] (Stage.operand.recorded (.keyword d) c)
      ⟨depth, .sign⟩ c' := by
  obtain ⟨isName, eq, ends⟩ := reads_name.found named
  have takes : (Piece.name n).Takes c₁.rest c'.rest := by
    refine ⟨eq, ?_, ?_⟩
    . rintro _ ⟨⟩
      exact isName
    . rintro _ ⟨⟩
      exact ends
  have second : Walk ⟨depth, .name⟩ c₁ [.name n] 0 ⟨depth, .sign⟩ c' :=
    .single takes ⟨_, passes_of_name named⟩ ⟨rfl, rfl, rfl⟩ (.refl _ c')
  have walk := (walk_keyword passes).trans second
  rwa [Nat.max_zero] at walk

theorem parseGroup_of_absent (choice : Parser LanguageText)
    (h : ¬Piece.opening.text.toList <+: c.rest) :
    (parseGroup choice).result c = none ∧ (parseGroup choice).reach c = c.offset := by
  have absent := result_literal_of_absent (s := "(") h
  have none : (parseGroup choice).result c = none := by
    unfold parseGroup
    rw [result_expecting, result_bind_of_none absent]
  refine ⟨none, ?_⟩
  unfold parseGroup at none ⊢
  rw [result_expecting] at none
  rw [reach_expecting_of_none none, reach_bind_of_none absent, nameless_literal]
  exact Nat.max_zero _

def OperandEnding (depth : Nat) (c : Cursor) (result : Option (LanguageText × Cursor))
    (reach : Nat) : Prop :=
  (∃ t c' ps, result = some (t, c') ∧ Walk ⟨depth, .operand⟩ c ps reach ⟨depth, .sign⟩ c') ∨
    (result = none ∧ c.offset ≤ reach ∧ BreaksOff ⟨depth, .operand⟩ c reach)

def separators : List Joint := [.choice, .sequence]

theorem stuck_of_ended (stage_eq : stage = .sign ∨ stage = .joint) (settled : Settled rest)
    (noSign : stage = .sign → NoSign rest) (noSeparator : NoSeparator separators rest)
    (noClosing : depth = 0 ∨ ¬Piece.closing.text.toList <+: rest) :
    Standing.Stuck ⟨depth, stage⟩ rest := by
  refine ⟨fun _ => settled, ?_⟩
  intro p rest' s' takes step
  have allowed := step.allowed
  have prefixed : p.text.toList <+: rest := ⟨rest', takes.text_eq.symm⟩
  cases p with
  | semicolon => exact noSeparator .sequence (by decide) prefixed
  | bar => exact noSeparator .choice (by decide) prefixed
  | sign sign =>
    rcases stage_eq with rfl | rfl
    . exact noSign rfl sign prefixed
    . cases allowed
  | closing =>
    rcases noClosing with rfl | absent
    . cases step.depth_eq
    . exact absent prefixed
  | _ => rcases stage_eq with rfl | rfl <;> cases allowed

def restOfGroup (choice : Parser LanguageText) : Parser LanguageText := do
  let inner ← choice
  layout
  literal ")"
  pure inner

theorem parseGroup_of_opening (choice : Parser LanguageText)
    (found : (literal "(").result c = some ((), c₁))
    (skipped : layout.result c₁ = some ((), c₂)) :
    (parseGroup choice).result c = (restOfGroup choice).result c₂ ∧
      max c.offset ((parseGroup choice).reach c) =
        max c.offset ((restOfGroup choice).reach c₂) := by
  have unfolded : parseGroup choice =
      expecting .group (do literal "("; layout; restOfGroup choice) := rfl
  have result : (do literal "("; layout; restOfGroup choice : Parser LanguageText).result c =
      (restOfGroup choice).result c₂ := by
    rw [result_bind_of found, result_bind_of skipped]
  have reach : (do literal "("; layout; restOfGroup choice : Parser LanguageText).reach c =
      (restOfGroup choice).reach c₂ := by
    rw [reach_bind_of_nameless (nameless_literal _) found,
      reach_bind_of_nameless nameless_layout skipped]
  rw [unfolded, result_expecting, result]
  refine ⟨rfl, ?_⟩
  match attempt : (restOfGroup choice).result c₂ with
  | none =>
    rw [reach_expecting_of_none (result.trans attempt), reach]
    omega
  | some (t, c') => rw [reach_expecting_of (result.trans attempt), reach]

theorem reach_restOfGroup_of {t : LanguageText} (inner : choice.result c = some (t, c')) :
    (restOfGroup choice).reach c = choice.reach c := by
  have closing : Nameless (do layout; literal ")"; pure t : Parser LanguageText) :=
    nameless_layout.bind fun _ => (nameless_literal _).bind fun _ => nameless_pure
  exact (reach_bind_of inner).trans ((congrArg _ (closing c')).trans (Nat.max_zero _))

theorem result_restOfGroup_of_absent {t : LanguageText}
    (inner : choice.result c = some (t, c')) (skipped : layout.result c' = some ((), last))
    (absent : ¬Piece.closing.text.toList <+: last.rest) : (restOfGroup choice).result c = none := by
  have absent' : (literal ")").result last = none := result_literal_of_absent absent
  unfold restOfGroup
  rw [result_bind_of inner, result_bind_of skipped, result_bind_of_none absent']

theorem result_restOfGroup_of {t : LanguageText} (inner : choice.result c = some (t, c'))
    (skipped : layout.result c' = some ((), last))
    (found : (literal ")").result last = some ((), c₁)) :
    (restOfGroup choice).result c = some (t, c₁) := by
  unfold restOfGroup
  rw [result_bind_of inner, result_bind_of skipped, result_bind_of found]
  rfl

theorem walk_opening (passes : c.Passes Piece.opening.text.toList c₁)
    (passed : c₁.Passed .joint c₂) :
    Walk ⟨depth, .operand⟩ c [.opening] c.offset ⟨depth + 1, .operand⟩ c₂ := by
  have takes : Piece.opening.Takes c.rest c₁.rest :=
    Piece.takes_of_mem_fixed (by decide) passes.rest_eq
  have passed' : c₁.Passed .operand c₂ := passed.of_ne (by decide)
  exact .single takes ⟨_, passes⟩ ⟨rfl, rfl, rfl⟩ passed'

theorem walk_closing (stage_eq : stage = .sign ∨ stage = .joint)
    (passes : c.Passes Piece.closing.text.toList c₁) :
    Walk ⟨depth + 1, stage⟩ c [.closing] (stage.due c) ⟨depth, .sign⟩ c₁ := by
  have takes : Piece.closing.Takes c.rest c₁.rest :=
    Piece.takes_of_mem_fixed (by decide) passes.rest_eq
  rcases stage_eq with rfl | rfl
  . exact .single takes ⟨_, passes⟩ ⟨rfl, rfl, rfl⟩ (.refl _ _)
  . exact .single takes ⟨_, passes⟩ ⟨rfl, rfl, rfl⟩ (.refl _ _)

theorem restOfGroup_ending (ending : Ending separators (depth + 1) choice c) :
    (∃ t c' ps, (restOfGroup choice).result c = some (t, c') ∧
      Walk ⟨depth + 1, .operand⟩ c ps ((restOfGroup choice).reach c) ⟨depth, .sign⟩ c') ∨
    ((restOfGroup choice).result c = none ∧
      BreaksOff ⟨depth + 1, .operand⟩ c ((restOfGroup choice).reach c)) := by
  rcases ending with ⟨a, c', inner, ps, n, stage, last, walk, ends, same⟩ |
      ⟨breaks, ⟨none, _⟩ | ⟨a, c', inner, c₁, _, k, _, passed, text, _⟩⟩
  . have skipped := ends.passed.result_layout ends.settled
    rw [reach_restOfGroup_of inner, same]
    by_cases closes : Piece.closing.text.toList <+: last.rest
    . obtain ⟨_, eq⟩ := closes
      obtain ⟨c₁, found, _⟩ := result_literal_of (s := ")") eq.symm
      exact .inl ⟨a, c₁, _, result_restOfGroup_of inner skipped found,
        walk.trans (walk_closing ends.stage_eq (passes_of_literal found))⟩
    . have stuck : Standing.Stuck ⟨depth + 1, stage⟩ last.rest :=
        stuck_of_ended ends.stage_eq ends.settled ends.noSign ends.noSeparator (.inr closes)
      refine .inr ⟨result_restOfGroup_of_absent inner skipped closes, ?_⟩
      exact ⟨ps, n, _, last, walk, stuck, fun complete => absurd complete.closed (by simp), rfl⟩
  . rw [show (restOfGroup choice).reach c = choice.reach c from reach_bind_of_none none]
    exact .inr ⟨result_bind_of_none none, breaks⟩
  -- a separator is no parenthesis
  . have takes := k.takes_piece text
    have noClosing : ¬Piece.closing.text.toList <+: c₁.rest := by
      apply not_prefix_of_takes takes k.piece_mem_fixed (by decide)
      cases k <;> decide
    have skipped := passed.result_layout takes.settled
    rw [reach_restOfGroup_of inner]
    exact .inr ⟨result_restOfGroup_of_absent inner skipped noClosing, breaks⟩

theorem parseGroup_ending (opens : Piece.opening.text.toList <+: c.rest)
    (ending : ∀ c₂, c₂.left < c.left → Settled c₂.rest →
      Ending separators (depth + 1) choice c₂) :
    OperandEnding depth c ((parseGroup choice).result c)
      (max c.offset ((parseGroup choice).reach c)) := by
  obtain ⟨rest, eq⟩ := opens
  obtain ⟨c₁, found, _⟩ := result_literal_of (s := "(") eq.symm
  obtain ⟨c₂, skipped, _, _⟩ := result_layout c₁
  obtain ⟨passed, settled⟩ := Cursor.passed_of_layout skipped
  have passes : c.Passes Piece.opening.text.toList c₁ := passes_of_literal found
  have opening : Walk ⟨depth, .operand⟩ c [.opening] c.offset ⟨depth + 1, .operand⟩ c₂ :=
    walk_opening passes passed
  have less : c₂.left < c.left :=
    Nat.lt_of_le_of_lt passed.reaches.left_le
      (Cursor.left_lt_of_append passes.rest_eq (by decide))
  obtain ⟨result, reach⟩ := parseGroup_of_opening choice found skipped
  rw [result, reach]
  rcases restOfGroup_ending (ending c₂ less settled) with ⟨t, c', ps, inner, walk⟩ | ⟨none, breaks⟩
  . exact .inl ⟨t, c', _, inner, opening.trans walk⟩
  . exact .inr ⟨none, Nat.le_max_left _ _, breaks.prepend opening⟩

theorem breaksOff_name {d : Direction} (passes : c.Passes (Piece.keyword d).text.toList c₁)
    (none : name.result c₁ = none) :
    BreaksOff ⟨depth, .operand⟩ c (max (Stage.operand.recorded (.keyword d) c) c₁.offset) := by
  have breaks : BreaksOff ⟨depth, .name⟩ c₁ c₁.offset :=
    breaksOff_of_stuck (stuck_of_name none) (Stage.not_complete (by decide) (by decide))
  exact breaks.prepend (walk_keyword passes)

theorem breaksOff_operand (settled : Settled c.rest)
    (noKeyword : ∀ d, ¬(Piece.keyword d).text.toList <+: c.rest)
    (noOpening : ¬Piece.opening.text.toList <+: c.rest) :
    BreaksOff ⟨depth, .operand⟩ c c.offset := by
  refine breaksOff_of_stuck ⟨fun _ => settled, ?_⟩ (Stage.not_complete (by decide) (by decide))
  intro p rest s' takes step
  have allowed := step.allowed
  have prefixed : p.text.toList <+: c.rest := ⟨rest, takes.text_eq.symm⟩
  cases p with
  | keyword d => exact noKeyword d prefixed
  | opening => exact noOpening prefixed
  | _ => cases allowed

theorem readOperand_ending (ending : ∀ c₂, c₂.left < c.left → Settled c₂.rest →
      Ending separators (depth + 1) choice c₂) (settled : Settled c.rest) :
    OperandEnding depth c ((readOperand choice).result c) ((readOperand choice).reach c) := by
  unfold readOperand
  rcases parseEvent_cases .inputEvent .input c with ⟨absent, none, reach⟩ |
      ⟨c₁, passes, ⟨unnamed, none, reach⟩ | ⟨n, t, c', named, found, reach⟩⟩
  . rw [result_orElse_of_none none, reach_orElse_of_none none, reach]
    rcases parseEvent_cases .outputEvent .output c with ⟨absent', none', reach'⟩ |
      ⟨c₁, passes, ⟨unnamed, none', reach'⟩ | ⟨n, t, c', named, found, reach'⟩⟩
    . rw [result_orElse_of_none none', reach_orElse_of_none none', reach', ← Nat.max_assoc,
        Nat.max_self]
      by_cases opens : Piece.opening.text.toList <+: c.rest
      . exact parseGroup_ending opens ending
      . obtain ⟨none'', reach''⟩ := parseGroup_of_absent choice opens
        rw [none'', reach'', Nat.max_self]
        have noKeyword : ∀ d, ¬(Piece.keyword d).text.toList <+: c.rest := by
          intro d
          cases d with
          | input => exact absent
          | output => exact absent'
        exact .inr ⟨rfl, Nat.le_refl _, breaksOff_operand settled noKeyword opens⟩
    . have takes : (Piece.keyword .output).Takes c.rest c₁.rest :=
        Piece.takes_of_mem_fixed (by decide) passes.rest_eq
      obtain ⟨none'', reach''⟩ := parseGroup_of_absent choice
        (not_prefix_of_takes takes (by decide) (by decide) (by decide))
      rw [result_orElse_of_none none', reach_orElse_of_none none', reach', none'', reach'']
      refine .inr ⟨rfl, Nat.le_max_left _ _, ?_⟩
      have same : max c.offset (max c₁.offset c.offset) = max c.offset c₁.offset := by omega
      rw [same]
      exact breaksOff_name passes unnamed
    . rw [result_orElse_of found, reach_orElse_of found, reach', Nat.max_zero]
      exact .inl ⟨t, c', _, rfl, walk_event passes named⟩
  . have takes : (Piece.keyword .input).Takes c.rest c₁.rest :=
      Piece.takes_of_mem_fixed (by decide) passes.rest_eq
    have others : ∀ q ∈ Piece.fixed, .keyword .input ≠ q → ¬q.text.toList <+: c.rest :=
      fun q mem ne => not_prefix_of_takes takes (by decide) mem ne
    have le : c.offset ≤ c₁.offset := Cursor.Reaches.offset_le ⟨_, passes⟩
    obtain ⟨none'', reach''⟩ := parseGroup_of_absent choice
      (others .opening (by decide) (by decide))
    rcases parseEvent_cases .outputEvent .output c with ⟨_, none', reach'⟩ | ⟨c₂, passes', _⟩
    . rw [result_orElse_of_none none, reach_orElse_of_none none, reach, result_orElse_of_none none',
        reach_orElse_of_none none', reach', none'', reach'']
      refine .inr ⟨rfl, by omega, ?_⟩
      have same : max c₁.offset (max c.offset c.offset) = max 0 c₁.offset := by omega
      rw [same]
      exact breaksOff_name passes unnamed
    . refine absurd ⟨c₂.rest, passes'.rest_eq.symm⟩ (others _ (by decide) (by decide))
  . rw [result_orElse_of found, reach_orElse_of found, reach]
    exact .inl ⟨t, c', _, rfl, walk_event passes named⟩

theorem readSign_cases (sign : Sign) (c : Cursor) :
    (¬sign.text.toList <+: c.rest ∧ (readSign sign).result c = none ∧
      (readSign sign).reach c = c.offset) ∨
    ∃ c', c.Passes sign.text.toList c' ∧ (readSign sign).result c = some (sign.apply, c') ∧
      (readSign sign).reach c = 0 := by
  by_cases present : sign.text.toList <+: c.rest
  . obtain ⟨rest, eq⟩ := present
    obtain ⟨c', found, _⟩ := result_literal_of eq.symm
    have found' : (expecting sign.expectation (literal sign.text)).result c = some ((), c') :=
      result_expecting.trans found
    refine .inr ⟨c', passes_of_literal found, ?_, ?_⟩
    . unfold readSign
      rw [result_bind_of found']
      rfl
    . unfold readSign
      rw [reach_bind_of found', reach_expecting_of found, nameless_literal, nameless_pure]
      rfl
  . have absent := result_literal_of_absent present
    have absent' : (expecting sign.expectation (literal sign.text)).result c = none :=
      result_expecting.trans absent
    refine .inl ⟨present, result_readSign_of_absent present, ?_⟩
    unfold readSign
    rw [reach_bind_of_none absent', reach_expecting_of_none absent, nameless_literal]
    exact Nat.max_zero _

theorem walk_sign {sign : Sign} (passes : c.Passes sign.text.toList c') :
    Walk ⟨depth, .sign⟩ c [.sign sign] (Stage.sign.recorded (.sign sign) c) ⟨depth, .joint⟩ c' := by
  have takes : (Piece.sign sign).Takes c.rest c'.rest :=
    Piece.takes_of_mem_fixed (by cases sign <;> decide) passes.rest_eq
  exact .single takes ⟨_, passes⟩ ⟨rfl, rfl, rfl⟩ (.refl _ c')

theorem parseSign_cases (depth : Nat) (c : Cursor) :
    (NoSign c.rest ∧ parseSign.result c = none ∧ parseSign.reach c = c.offset) ∨
    ∃ sign : Sign, ∃ c', parseSign.result c = some (sign.apply, c') ∧
      Walk ⟨depth, .sign⟩ c [.sign sign] (parseSign.reach c) ⟨depth, .joint⟩ c' := by
  rw [parseSign_eq]
  rcases readSign_cases .star c with ⟨noStar, none, reach⟩ | ⟨c', passes, found, reach⟩
  . rw [result_orElse_of_none none, reach_orElse_of_none none, reach]
    rcases readSign_cases .plus c with ⟨noPlus, none', reach'⟩ | ⟨c', passes, found, reach'⟩
    . rw [result_orElse_of_none none', reach_orElse_of_none none', reach', ← Nat.max_assoc,
        Nat.max_self]
      rcases readSign_cases .question c with ⟨noQuestion, none'', reach''⟩ |
          ⟨c', passes, found, reach''⟩
      . rw [none'', reach'', Nat.max_self]
        refine .inl ⟨?_, rfl, rfl⟩
        intro sign
        cases sign with
        | star => exact noStar
        | plus => exact noPlus
        | question => exact noQuestion
      . rw [found, reach'', Nat.max_zero]
        exact .inr ⟨.question, c', rfl, walk_sign passes⟩
    . rw [result_orElse_of found, reach_orElse_of found, reach', Nat.max_zero]
      exact .inr ⟨.plus, c', rfl, walk_sign passes⟩
  . rw [result_orElse_of found, reach_orElse_of found, reach]
    exact .inr ⟨.star, c', rfl, walk_sign passes⟩

theorem parseItem_ending (ending : ∀ c₂, c₂.left < c.left → Settled c₂.rest →
      Ending separators (depth + 1) choice c₂) (settled : Settled c.rest) :
    Ending [] depth (parseItem choice) c := by
  unfold parseItem
  apply Ending.expecting
  have operand := readOperand_ending ending settled
  unfold readOperand at operand
  rcases operand with ⟨t, c', ps, found, walk⟩ | ⟨none, le, breaks⟩
  . obtain ⟨c₁, skipped, _, settled'⟩ := result_layout c'
    obtain ⟨passed, _⟩ := Cursor.passed_of_layout skipped
    have passed' : c'.Passed .sign c₁ := passed.of_ne (by decide)
    have before := walk.trans (.done passed')
    rw [List.append_nil, Nat.max_zero] at before
    refine .inl ?_
    rw [reach_bind_of found, reach_bind_of_nameless nameless_layout skipped, result_bind_of found,
      result_bind_of skipped]
    rcases parseSign_cases depth c₁ with ⟨noSign, absent, reach⟩ | ⟨sign, c₂, signed, last⟩
    . have optional := result_optional_of_none absent
      rw [result_bind_of optional, reach_bind_of optional, reach_optional, reach, nameless_pure,
        Nat.max_zero]
      refine ⟨_, c₁, rfl, ps, _, .sign, c₁, before, ?_, rfl⟩
      exact ⟨.refl _ c₁, settled', .inl rfl, fun _ => noSign, nofun⟩
    . have optional := result_optional_of signed
      obtain ⟨c₃, skipped', _, settled''⟩ := result_layout c₂
      obtain ⟨passed'', _⟩ := Cursor.passed_of_layout skipped'
      have after := last.trans (.done passed'')
      rw [List.append_nil, Nat.max_zero] at after
      rw [result_bind_of optional, reach_bind_of optional, reach_optional, nameless_pure,
        Nat.max_zero]
      refine ⟨_, c₂, rfl, _, _, .joint, c₃, before.trans after, ?_, (Nat.max_zero _).symm⟩
      exact ⟨passed'', settled'', .inr rfl, nofun, nofun⟩
  . refine .inr ?_
    rw [reach_bind_of_none none]
    exact ⟨breaks, .inl ⟨result_bind_of_none none, le⟩⟩

def stops : Joint → List Joint
  | .sequence => []
  | .choice => [.sequence]

theorem result_more_of_absent (element : Parser LanguageText)
    (absent : ¬k.separator.text.toList <+: c.rest) :
    (k.more element).result c = none ∧ (k.more element).reach c = 0 := by
  have none := result_literal_of_absent absent
  unfold Joint.more
  exact ⟨result_bind_of_none none, reach_bind_of_none none⟩

theorem absent_of_stops {j : Joint} {text : List Char} (mem : j ∈ stops k)
    (eq : text = j.separator.text.toList ++ rest) : ¬k.separator.text.toList <+: text := by
  have ne : j.piece ≠ k.piece := by
    cases k with
    | sequence => cases mem
    | choice =>
      rw [List.mem_singleton.1 mem]
      decide
  have absent := not_prefix_of_takes (j.takes_piece eq) j.piece_mem_fixed k.piece_mem_fixed ne
  cases k <;> exact absent

theorem walk_separator (stage_eq : stage = .sign ∨ stage = .joint)
    (found : (literal k.separator.text).result c = some ((), c₁)) (passed : c₁.Passed .joint c₂) :
    Walk ⟨depth, stage⟩ c [k.piece] (stage.due c) ⟨depth, .operand⟩ c₂ := by
  have passes := passes_of_literal found
  have takes : k.piece.Takes c.rest c₁.rest := k.takes_piece passes.rest_eq
  have passed' : c₁.Passed .operand c₂ := passed.of_ne (by decide)
  rcases stage_eq with rfl | rfl <;> cases k <;>
    exact .single takes ⟨_, passes⟩ ⟨rfl, rfl, rfl⟩ passed'

theorem more_of_separator (element : Parser LanguageText)
    (separator : (literal k.separator.text).result c = some ((), c₁))
    (skipped : layout.result c₁ = some ((), c₂)) :
    (k.more element).result c = element.result c₂ ∧
      (k.more element).reach c = element.reach c₂ := by
  unfold Joint.more
  constructor
  . rw [result_bind_of separator, result_bind_of skipped]
  . rw [reach_bind_of_nameless (nameless_literal _) separator,
      reach_bind_of_nameless nameless_layout skipped]

theorem left_lt_of_separator (separator : (literal k.separator.text).result c = some ((), c₁))
    (passed : c₁.Passed .joint c₂) : c₂.left < c.left := by
  apply Nat.lt_of_le_of_lt passed.reaches.left_le
  apply Cursor.left_lt_of_append (rest_of_literal separator)
  cases k <;> decide

def behind (k : Joint) (element : Parser LanguageText) : Parser (List LanguageText) :=
  manyOf (do layout; k.more element)

theorem behind_of_none (skipped : layout.result c = some ((), c₁))
    (none : (k.more element).result c₁ = none) :
    (behind k element).result c = some ([], c) ∧
      (behind k element).reach c = (k.more element).reach c₁ := by
  have step : (do layout; k.more element : Parser LanguageText).result c = Option.none :=
    (result_bind_of skipped).trans none
  refine ⟨result_many_of_none step, ?_⟩
  exact (reach_many_of_none step).trans (reach_bind_of_nameless nameless_layout skipped)

theorem behind_of_some {t : LanguageText} {ts : List LanguageText}
    (skipped : layout.result c = some ((), c₁))
    (found : (k.more element).result c₁ = some (t, c')) (less : c'.left < c.left)
    (others : (behind k element).result c' = some (ts, last)) :
    (behind k element).result c = some (t :: ts, last) ∧
      (behind k element).reach c =
        max ((k.more element).reach c₁) ((behind k element).reach c') := by
  have step : (do layout; k.more element : Parser LanguageText).result c = some (t, c') :=
    (result_bind_of skipped).trans found
  have reach : (do layout; k.more element : Parser LanguageText).reach c =
      (k.more element).reach c₁ := reach_bind_of_nameless nameless_layout skipped
  refine ⟨result_many_of step less others, ?_⟩
  rw [← reach]
  exact reach_many_of step less

theorem behind_of_stops {j : Joint} (element : Parser LanguageText) (mem : j ∈ stops k)
    (passed : c.Passed .joint c₁) (text : c₁.rest = j.separator.text.toList ++ rest) :
    (behind k element).result c = some ([], c) ∧ (behind k element).reach c = 0 := by
  have skipped := passed.result_layout (j.takes_piece text).settled
  obtain ⟨none, zero⟩ := result_more_of_absent element (absent_of_stops mem text)
  rw [← zero]
  exact behind_of_none skipped none

def BehindEnding (k : Joint) (depth : Nat) (stage : Stage) (element : Parser LanguageText)
    (c c₁ : Cursor) : Prop :=
  ∃ ts c', (behind k element).result c = some (ts, c') ∧
    (EndsWell (k :: stops k) ⟨depth, stage⟩ c₁ c'
        (max (stage.due c₁) ((behind k element).reach c)) ∨
      (BreaksOff ⟨depth, stage⟩ c₁ (max (stage.due c₁) ((behind k element).reach c)) ∧
        StopsBefore (k :: stops k) c' ((behind k element).reach c)))

theorem behindEnding_of_absent (ends : EndsAt (stops k) stage c c₁)
    (absent : ¬k.separator.text.toList <+: c₁.rest) : BehindEnding k depth stage element c c₁ := by
  obtain ⟨none, reach⟩ := result_more_of_absent element absent
  obtain ⟨whole, total⟩ := behind_of_none (ends.passed.result_layout ends.settled) none
  refine ⟨[], c, whole, .inl ?_⟩
  rw [total, reach]
  refine ⟨[], 0, stage, c₁, .done (.refl _ _), ?_, Nat.max_comm _ _⟩
  exact { ends with noSeparator := List.forall_mem_cons.2 ⟨absent, ends.noSeparator⟩ }

theorem behindEnding_of_none (ends : EndsAt (stops k) stage c c₁)
    (text : c₁.rest = k.separator.text.toList ++ rest)
    (walk : Walk ⟨depth, stage⟩ c₁ [k.piece] (stage.due c₁) ⟨depth, .operand⟩ c₂)
    (none : (k.more element).result c₁ = none) (further : c₁.offset ≤ (k.more element).reach c₁)
    (breaks : BreaksOff ⟨depth, .operand⟩ c₂ ((k.more element).reach c₁)) :
    BehindEnding k depth stage element c c₁ := by
  obtain ⟨whole, total⟩ := behind_of_none (ends.passed.result_layout ends.settled) none
  refine ⟨[], c, whole, .inr ?_⟩
  rw [total]
  exact ⟨breaks.prepend walk, c₁, rest, k, List.mem_cons_self, ends.passed, text, further⟩

theorem behindEnding_of_stops {t : LanguageText} (ends : EndsAt (stops k) stage c c₁)
    (walk : Walk ⟨depth, stage⟩ c₁ [k.piece] (stage.due c₁) ⟨depth, .operand⟩ c₂)
    (found : (k.more element).result c₁ = some (t, c')) (less : c'.left < c.left)
    (breaks : BreaksOff ⟨depth, .operand⟩ c₂ ((k.more element).reach c₁))
    (before : StopsBefore (stops k) c' ((k.more element).reach c₁)) :
    BehindEnding k depth stage element c c₁ := by
  obtain ⟨c₃, _, j, mem, passed, text, further⟩ := before
  obtain ⟨others, zero⟩ := behind_of_stops element mem passed text
  obtain ⟨whole, total⟩ := behind_of_some (ends.passed.result_layout ends.settled) found less others
  refine ⟨[t], c', whole, .inr ?_⟩
  rw [total, zero, Nat.max_zero]
  exact ⟨breaks.prepend walk, c₃, _, j, List.mem_cons_of_mem k mem, passed, text, further⟩

theorem BehindEnding.another {t : LanguageText} {stage' : Stage} {c₃ : Cursor}
    (later : BehindEnding k depth stage' element c' last) (ends : EndsAt (stops k) stage c c₁)
    (walk : Walk ⟨depth, stage⟩ c₁ [k.piece] (stage.due c₁) ⟨depth, .operand⟩ c₃)
    (found : (k.more element).result c₁ = some (t, c')) (less : c'.left < c.left)
    (inner : Walk ⟨depth, .operand⟩ c₃ ps m ⟨depth, stage'⟩ last)
    (reach : (k.more element).reach c₁ = max m (stage'.due last)) :
    BehindEnding k depth stage element c c₁ := by
  obtain ⟨ts, c'', others, later⟩ := later
  obtain ⟨whole, total⟩ := behind_of_some (ends.passed.result_layout ends.settled) found less others
  have sum : max (stage.due c₁) ((behind k element).reach c) =
      max (max (stage.due c₁) m) (max (stage'.due last) ((behind k element).reach c')) := by
    rw [total, reach]
    omega
  refine ⟨t :: ts, c'', whole, ?_⟩
  rw [sum]
  rcases later with well | ⟨breaks, before⟩
  . exact .inl (well.prepend (walk.trans inner) rfl)
  . refine .inr ⟨breaks.prepend (walk.trans inner), before.mono (List.Subset.refl _) ?_⟩
    rw [total]
    exact Nat.le_max_right _ _

theorem behind_ending {bound : Nat} (sound : Sound k.element element)
    (ending : ∀ c, c.left < bound → Settled c.rest → Ending (stops k) depth element c)
    (ends : EndsAt (stops k) stage c c₁) (le : c.left ≤ bound) :
    BehindEnding k depth stage element c c₁ := by
  induction n : c.left using Nat.strongRecOn generalizing c c₁ stage with
  | _ n ih =>
    by_cases present : k.separator.text.toList <+: c₁.rest
    . obtain ⟨rest, eq⟩ := present
      obtain ⟨c₂, separator, _⟩ := result_literal_of eq.symm
      obtain ⟨c₃, skipped, _, settled⟩ := result_layout c₂
      obtain ⟨passed, _⟩ := Cursor.passed_of_layout skipped
      have walk : Walk ⟨depth, stage⟩ c₁ [k.piece] (stage.due c₁) ⟨depth, .operand⟩ c₃ :=
        walk_separator ends.stage_eq separator passed
      obtain ⟨result, reach⟩ := more_of_separator element separator skipped
      have short : c₁.left ≤ c.left := ends.passed.reaches.left_le
      have shorter : c₃.left < c₁.left := left_lt_of_separator separator passed
      rcases ending c₃ (by omega) settled with
        ⟨t, c', found, ps, m, stage', last, inner, ends', same⟩ |
          ⟨breaks, ⟨none, further⟩ | ⟨t, c', found, before⟩⟩
      . have less := left_lt_of_more sound (result.trans found)
        exact (ih c'.left (by omega) ends' (by omega) rfl).another ends walk (result.trans found)
          (by omega) inner (reach.trans same)
      . have := walk.reaches.offset_le
        rw [← reach] at breaks further
        exact behindEnding_of_none ends eq.symm walk (result.trans none) (by omega) breaks
      . have less := left_lt_of_more sound (result.trans found)
        rw [← reach] at breaks before
        exact behindEnding_of_stops ends walk (result.trans found) (by omega) breaks before
    . exact behindEnding_of_absent ends present

theorem read_of_behind {t : LanguageText} {ts : List LanguageText}
    (sound : Sound k.element element) (found : element.result c = some (t, c'))
    (skipped : layout.result c' = some ((), c₁)) (settled : Settled c₁.rest)
    (others : (behind k element).result c₁ = some (ts, last)) :
    (k.read element).result c = some (.join k.combine (t :: ts), last) ∧
      (k.read element).reach c = max (element.reach c) ((behind k element).reach c₁) := by
  have moves : ∀ c t c', (k.more element).result c = some (t, c') → c'.left < c.left :=
    fun _ _ _ => left_lt_of_more sound
  have repeats := (result_repeated_of_settled moves settled).trans others
  unfold Joint.read
  constructor
  . rw [result_bind_of found, result_bind_of skipped, result_bind_of repeats]
    rfl
  . rw [reach_bind_of found, reach_bind_of_nameless nameless_layout skipped, reach_bind_of repeats,
      nameless_pure, Nat.max_zero, reach_repeated_of_settled moves settled]
    rfl

theorem read_ending {bound : Nat} (sound : Sound k.element element)
    (ending : ∀ c, c.left < bound → Settled c.rest → Ending (stops k) depth element c)
    (first : Ending (stops k) depth element c) (le : c.left ≤ bound) :
    Ending (k :: stops k) depth (k.read element) c := by
  rcases first with ⟨t, c', found, ps, m, stage, last, walk, ends, same⟩ |
      ⟨breaks, ⟨none, further⟩ | ⟨t, c', found, c₁, rest, j, mem, passed, text, further⟩⟩
  . have skipped := ends.passed.result_layout ends.settled
    have ends' : EndsAt (stops k) stage last last := { ends with passed := .refl _ last }
    have short : last.left ≤ c.left := walk.reaches.left_le
    obtain ⟨ts, c'', others, later⟩ := behind_ending sound ending ends' (by omega)
    obtain ⟨whole, total⟩ := read_of_behind sound found skipped ends.settled others
    have sum : (k.read element).reach c =
        max m (max (stage.due last) ((behind k element).reach last)) := by
      rw [total, same]
      omega
    rcases later with well | ⟨breaks, before⟩
    . refine .inl ⟨_, c'', whole, ?_⟩
      rw [sum]
      exact well.prepend walk rfl
    . have before' : StopsBefore (k :: stops k) c'' ((k.read element).reach c) := by
        apply before.mono (List.Subset.refl _)
        rw [total]
        exact Nat.le_max_right _ _
      refine .inr ⟨?_, .inr ⟨_, c'', whole, before'⟩⟩
      rw [sum]
      exact breaks.prepend walk
  . have reach : (k.read element).reach c = element.reach c := reach_bind_of_none none
    rw [Ending, reach]
    exact .inr ⟨breaks, .inl ⟨result_bind_of_none none, further⟩⟩
  -- the element stopped before a separator of its own, and no other one is there
  . have settled := (j.takes_piece text).settled
    have skipped := passed.result_layout settled
    obtain ⟨others, zero⟩ := behind_of_stops element mem (.refl _ c₁) text
    obtain ⟨whole, total⟩ := read_of_behind sound found skipped settled others
    rw [zero, Nat.max_zero] at total
    refine .inr ⟨?_, .inr ⟨_, c₁, whole, ?_⟩⟩
    . rw [total]
      exact breaks
    . rw [total]
      exact ⟨c₁, rest, j, List.mem_cons_of_mem k mem, .refl _ c₁, text, further⟩

theorem parseSequence_ending {bound : Nat} (le : c.left ≤ bound) (settled : Settled c.rest)
    (sound : Sound (.joined .choice) choice)
    (ending : ∀ c, c.left < bound → Settled c.rest → Ending separators (depth + 1) choice c) :
    Ending (stops .choice) depth (parseSequence choice) c := by
  apply Ending.expecting
  have item : ∀ c, c.left ≤ bound → Settled c.rest → Ending [] depth (parseItem choice) c :=
    fun c le => parseItem_ending fun c₂ less => ending c₂ (by omega)
  exact read_ending (k := .sequence) (sound_parseItem sound) (fun c less => item c (by omega))
    (item c le settled) le

theorem parseChoice_ending (depth : Nat) (c : Cursor) (settled : Settled c.rest) :
    Ending separators depth parseChoice c := by
  induction n : c.left using Nat.strongRecOn generalizing c depth with
  | _ n ih =>
    have inner : ∀ c', c'.left < c.left → Settled c'.rest →
        Ending separators (depth + 1) (inside c) c' := by
      intro c' less settled'
      apply (ih c'.left (n ▸ less) (depth + 1) c' settled' rfl).congr
      . exact (result_below less).symm
      . exact (reach_below less).symm
    have element : ∀ c', c'.left ≤ c.left → Settled c'.rest →
        Ending (stops .choice) depth (parseSequence (inside c)) c' :=
      fun c' le settled' => parseSequence_ending le settled' sound_inside inner
    have whole : Ending separators depth
        (expecting .choice (Joint.choice.read (parseSequence (inside c)))) c :=
      (read_ending (k := .choice) (sound_parseSequence sound_inside)
        (fun c' less => element c' (by omega)) (element c (Nat.le_refl _) settled)
        (Nat.le_refl _)).expecting
    have unfolded : parseChoice = nestedOf fun choice =>
        expecting .choice (Joint.choice.read (parseSequence choice)) := rfl
    apply whole.congr
    . rw [unfolded, result_nested]
      rfl
    . rw [unfolded, reach_nested]
      rfl

def furthestAt (s : Standing) (n : Nat) (last : Cursor) : Nat :=
  if s.stage = .joint ∧ s.depth ≠ 0 then n else last.offset

theorem due_le_offset (stage : Stage) (c : Cursor) : stage.due c ≤ c.offset := by
  unfold Stage.due
  split <;> omega

theorem max_due_eq_furthestAt (incomplete : ¬s.Complete) (le : n ≤ last.offset) :
    max n (s.stage.due last) = furthestAt s n last := by
  unfold Stage.due furthestAt
  by_cases joint : s.stage = .joint
  . have deep : s.depth ≠ 0 := fun closed => incomplete ⟨closed, .inr joint⟩
    rw [if_pos joint, if_pos ⟨joint, deep⟩, Nat.max_zero]
  . rw [if_neg joint, if_neg fun both => joint both.1, Nat.max_eq_right le]

def restOfText : Parser LanguageText := do
  let found ← parseChoice
  layout
  expecting .endOfInput endOfText
  pure found

theorem result_parseText_of (skipped : layout.result c = some ((), c₁)) :
    parseText.result c = restOfText.result c₁ := by
  unfold parseText
  rw [result_expecting, result_bind_of skipped]
  rfl

theorem reach_parseText_of_none (skipped : layout.result c = some ((), c₁))
    (none : restOfText.result c₁ = none) (le : c.offset ≤ restOfText.reach c₁) :
    parseText.reach c = restOfText.reach c₁ := by
  have body : (do layout; restOfText : Parser LanguageText).result c = Option.none :=
    (result_bind_of skipped).trans none
  have unfolded : parseText = expecting .language (do layout; restOfText) := rfl
  rw [unfolded, reach_expecting_of_none body, reach_bind_of_nameless nameless_layout skipped]
  exact Nat.max_eq_right le

theorem result_restOfText_of_nil {t : LanguageText} (found : parseChoice.result c = some (t, c'))
    (skipped : layout.result c' = some ((), last)) (nil : last.rest = []) :
    restOfText.result c = some (t, last) := by
  have stop : endOfText.result last = some ((), last) := by rw [result_endOfText, if_pos nil]
  unfold restOfText
  rw [result_bind_of found, result_bind_of skipped, result_bind_of (result_expecting.trans stop)]
  rfl

theorem restOfText_of_more {t : LanguageText} (found : parseChoice.result c = some (t, c'))
    (skipped : layout.result c' = some ((), last)) (more : last.rest ≠ []) :
    restOfText.result c = none ∧ restOfText.reach c = max (parseChoice.reach c) last.offset := by
  have none : endOfText.result last = none := by rw [result_endOfText, if_neg more]
  have none' : (expecting .endOfInput endOfText).result last = Option.none :=
    result_expecting.trans none
  unfold restOfText
  constructor
  . rw [result_bind_of found, result_bind_of skipped, result_bind_of_none none']
  . rw [reach_bind_of found, reach_bind_of_nameless nameless_layout skipped,
      reach_bind_of_none none', reach_expecting_of_none none, nameless_endOfText, Nat.max_zero]

theorem parseText_ending (c : Cursor) :
    ∃ ps n s last, Walk .start c ps n s last ∧ s.Stuck last.rest ∧
      ((s.Complete ∧ last.rest = [] ∧ ∃ t c', parseText.result c = some (t, c')) ∨
        (¬(s.Complete ∧ last.rest = []) ∧ parseText.result c = none ∧
          parseText.reach c = furthestAt s n last)) := by
  obtain ⟨c₀, skipped, _, settled⟩ := result_layout c
  obtain ⟨passed, _⟩ := Cursor.passed_of_layout skipped
  have start : Walk .start c [] 0 .start c₀ := .done (passed.of_ne (by decide))
  have le := passed.reaches.offset_le
  rw [result_parseText_of skipped]
  rcases parseChoice_ending 0 c₀ settled with ⟨t, c', found, ps, n, stage, last, walk, ends, same⟩ |
      ⟨⟨ps, n, s, last, walk, stuck, incomplete, same⟩, failed⟩
  . have skipped' := ends.passed.result_layout ends.settled
    have stuck : Standing.Stuck ⟨0, stage⟩ last.rest :=
      stuck_of_ended ends.stage_eq ends.settled ends.noSign ends.noSeparator (.inl rfl)
    refine ⟨_, _, _, last, start.trans walk, stuck, ?_⟩
    by_cases nil : last.rest = []
    . exact .inl ⟨⟨rfl, ends.stage_eq⟩, nil, t, last, result_restOfText_of_nil found skipped' nil⟩
    . obtain ⟨failed, total⟩ := restOfText_of_more found skipped' nil
      have := walk.le_offset
      have := walk.reaches.offset_le
      have := due_le_offset stage last
      refine .inr ⟨fun both => nil both.2, failed, ?_⟩
      rw [reach_parseText_of_none skipped failed (by omega), total, same, furthestAt,
        if_neg (by simp)]
      omega
  . have recorded : parseChoice.reach c₀ = furthestAt s (max 0 n) last := by
      rw [same, Nat.zero_max, max_due_eq_furthestAt incomplete walk.le_offset]
    refine ⟨_, _, s, last, start.trans walk, stuck, .inr ⟨fun both => incomplete both.1, ?_⟩⟩
    rw [← recorded]
    rcases failed with ⟨none, further⟩ | ⟨t, c', found, c₁, text, j, mem, passed', eq, further⟩
    . have none' : restOfText.result c₀ = Option.none := result_bind_of_none none
      have total : restOfText.reach c₀ = parseChoice.reach c₀ := reach_bind_of_none none
      exact ⟨none', (reach_parseText_of_none skipped none' (by omega)).trans total⟩
    -- the end of the text is looked for before a separator, but something else further on
    . have takes := j.takes_piece eq
      obtain ⟨failed, total⟩ := restOfText_of_more found (passed'.result_layout takes.settled)
        takes.ne_nil
      have behind := (locates_parseChoice c₀ t c' found).placed.reaches.offset_le
      have later := passed'.reaches.offset_le
      refine ⟨failed, ?_⟩
      rw [reach_parseText_of_none skipped failed (by omega), total]
      omega

end Language

end Interaction
