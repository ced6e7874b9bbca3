import Interaction.Proofs.Language.Outcome
import Mathlib

/-!
This module contains where texts are said to go wrong that are no languages. Usually this is the end
of the longest part of the text that could still have been completed; behind a repetition sign in a
group, it is a place before that, where something was looked for last.
-/

namespace Interaction

open Interaction.Parser

theorem Text.splitAtByte_append (a b : List Char) : splitAtByte (byteSize a) (a ++ b) = (a, b) := by
  induction a with
  | nil =>
    cases b with
    | nil => rfl
    | cons x b =>
      have := x.utf8Size_pos
      rw [List.nil_append, splitAtByte, if_neg (by rw [byteSize]; omega)]
  | cons x a ih =>
    rw [List.cons_append, splitAtByte, byteSize, if_pos (by omega), Nat.add_sub_cancel_left, ih]

theorem Settled.of_append {a b : List Char} (h : Settled (a ++ b)) : Settled a := by
  constructor
  . intro x head
    apply h.noSpace x
    rw [List.head?_append, head]
    rfl
  . intro comment
    exact h.noComment (comment.trans (List.prefix_append a b))

namespace Language

/-- Whether a named part of the grammar is looked for in vain before a piece is found. -/
def Tried (before : List Piece) (p : Piece) : Prop :=
  (Stage.after before.getLast?).triesBefore p = true

def EndsInGroup (ps : List Piece) : Prop :=
  (∃ sign, ps.getLast? = some (.sign sign)) ∧ ps.count .closing < ps.count .opening

/-- Whether a text consists of pieces, and can be completed with other ones behind them. -/
def Viable (before : List Char) : Prop :=
  ∃ ps qs after l, Pieces ps before ∧ Pieces (ps ++ qs) (before ++ after) ∧
    parse (String.ofList (before ++ after)) = .ok l

/-- Whether a part of a text is the longest one at its front that can be completed. -/
structure LongestViable (text before : List Char) : Prop where
  isPrefix : before <+: text
  viable : Viable before
  longest : ∀ other, other <+: text → Viable other → other.length ≤ before.length

variable {text : String} {before a b : List Char} {ps qs us : List Piece} {s t : Standing}
variable {c c' : Cursor} {n : Nat} {e : SyntaxError} {l : Language}

theorem stuck_nil (s : Standing) : s.Stuck [] :=
  ⟨fun _ => settled_nil, fun _ _ _ takes _ => takes.ne_nil rfl⟩

theorem exists_result_of_ok (h : parse text = .ok l) :
    ∃ found c', parseText.result (.ofText text.toList) = some (found, c') := by
  unfold parse at h
  match run : parseText.run text with
  | .error e =>
    rw [run] at h
    cases h
  | .ok found =>
    obtain ⟨c', result⟩ := run_eq_ok_iff.1 run
    exact ⟨found, c', result⟩

theorem exists_ok_of_result {found : LanguageText}
    (h : parseText.result (.ofText text.toList) = some (found, c')) : ∃ l, parse text = .ok l := by
  have run := run_eq_ok_iff.2 ⟨c', h⟩
  unfold parse
  rw [run]
  exact ⟨_, rfl⟩

theorem exists_parse_eq_ok_iff :
    (∃ l, parse text = .ok l) ↔ ∃ ps s, Leads .start text.toList ps s [] ∧ s.Complete := by
  obtain ⟨ps, n, s, last, walk, stuck, ended⟩ := parseText_ending (.ofText text.toList)
  have leads : Leads .start text.toList ps s last.rest := walk.leads
  constructor
  . rintro ⟨l, ok⟩
    obtain ⟨found, c', result⟩ := exists_result_of_ok ok
    rcases ended with ⟨complete, none, _⟩ | ⟨_, failed, _⟩
    . exact ⟨ps, s, none ▸ leads, complete⟩
    . rw [result] at failed
      cases failed
  . rintro ⟨qs, t, leads', complete⟩
    obtain ⟨rfl, rfl, none⟩ := leads.unique_of_stuck stuck leads' (stuck_nil t)
    rcases ended with ⟨_, _, found, c', result⟩ | ⟨incomplete, _⟩
    . exact exists_ok_of_result result
    . exact absurd ⟨complete, none⟩ incomplete

theorem position_of_error (h : parse text = .error e) :
    parseText.result (.ofText text.toList) = none ∧ ∀ a b, text.toList = a ++ b →
      parseText.reach (.ofText text.toList) = Text.byteSize a → e.position = Position.after a := by
  unfold parse Parser.run at h
  unfold result reach
  match attempt : parseText (.ofText text.toList) with
  | ⟨some (found, c'), furthest⟩ =>
    rw [attempt] at h
    cases h
  | ⟨none, furthest⟩ =>
    rw [attempt] at h
    cases h
    refine ⟨rfl, ?_⟩
    rintro a b eq (reach : furthest.offset = Text.byteSize a)
    unfold SyntaxError.ofFurthest
    rw [reach, eq, Text.splitAtByte_append]

theorem longestViable_of_stuck {last : List Char} (h : Leads .start (a ++ last) ps s last)
    (stuck : s.Stuck last) (pieces : Pieces ps a)
    (goesOn : ∀ next rest, s.Continues next rest → Leads .start (a ++ next) ps s rest) :
    LongestViable (a ++ last) a := by
  refine ⟨List.prefix_append a last, ?_, ?_⟩
  . obtain ⟨rest, qs, t, complete, leads⟩ := s.exists_completion
    obtain ⟨next, continues⟩ : ∃ next, s.Continues next rest := by
      unfold Standing.Continues
      split
      . exact ⟨_, rfl⟩
      . exact ⟨_, rfl⟩
    have whole := (goesOn next rest continues).trans leads
    obtain ⟨_, eq, pieces', _⟩ := whole.exists_pieces fun _ => settled_nil
    rw [List.append_nil] at eq
    obtain ⟨l, ok⟩ := exists_parse_eq_ok_iff.2
      ⟨ps ++ qs, t, (String.toList_ofList (l := a ++ next)).symm ▸ whole, complete⟩
    exact ⟨ps, qs, next, l, pieces, eq ▸ pieces', ok⟩
  . rintro other ⟨behind, eq⟩ ⟨us, vs, after, l, pieces', pieces'', ok⟩
    obtain ⟨ws, t, leads, complete⟩ := exists_parse_eq_ok_iff.1 ⟨l, ok⟩
    rw [String.toList_ofList] at leads
    obtain ⟨_, eq', piecesOfAll, _⟩ := leads.exists_pieces fun _ => settled_nil
    rw [List.append_nil] at eq'
    rw [← eq'] at piecesOfAll
    rw [piecesOfAll.unique pieces''] at leads
    obtain ⟨_, s', rest, leads', suffix⟩ :=
      Leads.exists_leads_of_pieces pieces' leads complete behind
    rw [eq] at leads'
    obtain ⟨_, _, further⟩ := h.exists_of_stuck stuck leads'
    have lengths := congrArg List.length eq
    have := further.suffix.length_le
    have := suffix.length_le
    rw [List.length_append, List.length_append] at lengths
    omega

theorem exists_walk (text : String) :
    ∃ before ps n s last, Walk .start (.ofText text.toList) ps n s last ∧ s.Stuck last.rest ∧
      text.toList = before ++ last.rest ∧ Pieces ps before ∧ LongestViable text.toList before ∧
      (parseText.result (.ofText text.toList) = none →
        parseText.reach (.ofText text.toList) = furthestAt s n last) := by
  obtain ⟨ps, n, s, last, walk, stuck, ended⟩ := parseText_ending (.ofText text.toList)
  have leads : Leads .start text.toList ps s last.rest := walk.leads
  obtain ⟨before, eq, pieces, goesOn⟩ := leads.exists_pieces stuck.settled
  refine ⟨before, ps, n, s, last, walk, stuck, eq, pieces, ?_, ?_⟩
  . rw [eq] at leads ⊢
    exact longestViable_of_stuck leads stuck pieces fun next rest h => (goesOn next rest h).1
  . intro failed
    rcases ended with ⟨_, _, found, c', result⟩ | ⟨_, _, reach⟩
    . rw [failed] at result
      cases result
    . exact reach

structure LastTried (before : List Piece) (s : Standing) (c : Cursor) (ps : List Piece)
    (t : Standing) (c' : Cursor) (n : Nat) (p : Piece) (first others : List Piece) : Prop where
  pieces_eq : ps = first ++ p :: others
  tried : Tried (before ++ first) p
  notTried : ∀ us q vs, others = us ++ q :: vs → ¬Tried (before ++ (first ++ p :: us)) q
  place : ∃ s₁ c₁, Leads s c.rest first s₁ c₁.rest ∧ Leads s₁ c₁.rest (p :: others) t c'.rest ∧
    Settled c₁.rest ∧ c.Reaches c₁ ∧ n = c₁.offset

theorem tried_iff (agrees : s.Agrees us) (p : Piece) :
    Tried us p ↔ s.stage.triesBefore p = true := by
  rw [Tried, ← agrees.stage_eq]

theorem triesBefore_opening {s' : Standing} (step : s.Step .opening s') :
    s.stage.triesBefore .opening = true := by
  have allowed := step.allowed
  cases stage : s.stage <;> rw [stage] at allowed
  . rfl
  all_goals cases allowed

theorem LastTried.here {s' : Standing} {c₁ c₂ : Cursor} {q : Piece} (agrees : s.Agrees us)
    (passed : c.Passed s.stage c₁) (takes : q.Takes c₁.rest c₂.rest) (step : s.Step q s')
    (leads : Leads s' c₂.rest ps t c'.rest) (isTried : s.stage.triesBefore q = true)
    (none : ∀ vs p ws, ps = vs ++ p :: ws → ¬Tried (us ++ [q] ++ vs) p) :
    LastTried us s c (q :: ps) t c' (s.stage.recorded q c₁) q [] ps where
  pieces_eq := rfl
  tried := by
    rw [List.append_nil]
    exact (tried_iff agrees q).2 isTried
  notTried := by
    intro vs p ws eq
    have later := none vs p ws eq
    rwa [List.append_assoc] at later
  place := by
    refine ⟨s, c₁, .done passed.gap, .step (Stage.gap_refl _ _) takes step leads, takes.settled,
      passed.reaches, ?_⟩
    rw [Stage.recorded, if_pos isTried]

theorem LastTried.prepend {s' : Standing} {c₁ c₂ : Cursor} {p q : Piece}
    {first others : List Piece} (h : LastTried (us ++ [q]) s' c₂ ps t c' n p first others)
    (passed : c.Passed s.stage c₁) (reaches : c₁.Reaches c₂) (takes : q.Takes c₁.rest c₂.rest)
    (step : s.Step q s') :
    LastTried us s c (q :: ps) t c' (max (s.stage.recorded q c₁) n) p (q :: first) others where
  pieces_eq := by rw [h.pieces_eq, List.cons_append]
  tried := by
    have tried := h.tried
    rwa [List.append_assoc] at tried
  notTried := by
    intro vs p' ws eq
    have later := h.notTried vs p' ws eq
    rwa [List.append_assoc] at later
  place := by
    obtain ⟨s₁, c₃, before, after, settled, further, rfl⟩ := h.place
    refine ⟨s₁, c₃, .step passed.gap takes step before, after, settled,
      (passed.reaches.trans reaches).trans further, ?_⟩
    have := reaches.offset_le
    have := further.offset_le
    unfold Stage.recorded
    split <;> omega

theorem exists_lastTried (walk : Walk s c ps n t c') (agrees : s.Agrees us) :
    (n = 0 ∧ t.depth ≤ s.depth ∧ ∀ vs q ws, ps = vs ++ q :: ws → ¬Tried (us ++ vs) q) ∨
      ∃ p first others, LastTried us s c ps t c' n p first others := by
  induction walk generalizing us with
  | done => exact .inl ⟨rfl, Nat.le_refl _, fun vs q ws eq => by simp at eq⟩
  | @step s s' t q ps n c c₁ c₂ c' passed reaches takes step walk ih =>
    rcases ih (agrees.step step) with ⟨rfl, shallow, none⟩ | ⟨p, first, others, last⟩
    . rw [Nat.max_zero]
      by_cases isTried : s.stage.triesBefore q = true
      . exact .inr ⟨q, [], ps, .here agrees passed takes step walk.leads isTried none⟩
      . have noOpening : q ≠ .opening := by
          rintro rfl
          exact isTried (triesBefore_opening step)
        have depth := step.depth_eq
        have noGroup : [q].count .opening = 0 := by simpa [List.count_singleton] using noOpening
        refine .inl ⟨by rw [Stage.recorded, if_neg isTried], by omega, ?_⟩
        intro vs p ws eq
        cases vs with
        | nil =>
          cases eq
          rwa [List.append_nil, tried_iff agrees]
        | cons v vs =>
          cases eq
          have later := none vs p ws rfl
          rwa [List.append_assoc] at later
    . exact .inr ⟨p, q :: first, others, last.prepend passed reaches takes step⟩

theorem endsInGroup_iff (agrees : s.Agrees ps) :
    EndsInGroup ps ↔ s.stage = .joint ∧ s.depth ≠ 0 := by
  have depth := agrees.depth_eq
  have stage : s.stage = .joint ↔ ∃ sign, ps.getLast? = some (.sign sign) := by
    rw [agrees.stage_eq]
    match ps.getLast? with
    | none => simp [Stage.after]
    | some p => cases p <;> simp [Stage.after]
  unfold EndsInGroup
  rw [stage, and_congr_right_iff]
  intro _
  omega

theorem byteSize_of_reaches {c : Cursor} (reaches : (Cursor.ofText a).Reaches c)
    (eq : a = before ++ c.rest) : c.offset = Text.byteSize before := by
  have passes := Cursor.passes_of_reaches reaches eq
  rw [passes.offset_eq]
  exact Nat.zero_add _

/--
A text that is no language has a longest part at its front that can still be completed, in whole
pieces, with the layout behind them. The text is said to go wrong where this part ends, unless the
last piece of the part is a repetition sign and a group is open. Then only separators and the
parenthesis that closes the group may come next, which have no names; the text is said to go wrong
before the last piece of the part where something with a name was looked for in vain.
-/
theorem error_position (rejected : parse text = .error e) :
    ∃ before ps, LongestViable text.toList before ∧ Pieces ps before ∧
      (¬EndsInGroup ps → e.position = Position.after before) ∧
      (EndsInGroup ps → ∃ first p others start middle, ps = first ++ p :: others ∧
        Tried first p ∧ (∀ us q vs, others = us ++ q :: vs → ¬Tried (first ++ p :: us) q) ∧
        before = start ++ middle ∧ Pieces first start ∧ Pieces (p :: others) middle ∧
        p.text.toList <+: middle ∧ e.position = Position.after start) := by
  obtain ⟨failed, position⟩ := position_of_error rejected
  obtain ⟨before, ps, n, s, last, walk, stuck, eq, pieces, longest, reached⟩ := exists_walk text
  have agrees : s.Agrees ps := Standing.agrees_start.leads walk.leads
  have reach := reached failed
  refine ⟨before, ps, longest, pieces, ?_, ?_⟩
  . intro outside
    rw [endsInGroup_iff agrees] at outside
    rw [furthestAt, if_neg outside] at reach
    exact position before last.rest eq (reach.trans (byteSize_of_reaches walk.reaches eq))
  . intro inside
    rw [endsInGroup_iff agrees] at inside
    rw [furthestAt, if_pos inside] at reach
    rcases exists_lastTried walk Standing.agrees_start with ⟨_, shallow, _⟩ |
        ⟨p, first, others, rfl, tried, notTried, s₁, c₁, leads₁, leads₂, settled, reaches, rfl⟩
    . exact absurd (Nat.le_zero.1 shallow) inside.2
    . obtain ⟨start, eq₁, pieces₁, _⟩ := leads₁.exists_pieces fun _ => settled
      obtain ⟨middle, eq₂, pieces₂, _⟩ := leads₂.exists_pieces stuck.settled
      have whole : before = start ++ middle := by
        have eq' : text.toList = start ++ c₁.rest := eq₁
        rw [eq', eq₂, ← List.append_assoc, List.append_cancel_right_eq] at eq
        exact eq.symm
      refine ⟨first, p, others, start, middle, rfl, tried, notTried, whole, pieces₁, pieces₂, ?_,
        position start c₁.rest eq₁ (reach.trans (byteSize_of_reaches reaches eq₁))⟩
      cases pieces₂ with
      | cons skips takes _ =>
        rw [eq₂] at settled
        rw [← skips.eq_of_settled settled.of_append, takes.text_eq]
        exact List.prefix_append _ _

def brokenGroup : String := "(in:a *\n in:b)"

theorem parse_brokenGroup :
    parse brokenGroup = .error ⟨[.item], ⟨0, 1, 1⟩, "(in:a *\n^"⟩ := by
  cbv

theorem error_position_brokenGroup :
    parse brokenGroup = .error ⟨[.item], ⟨0, 1, 1⟩, "(in:a *\n^"⟩ ∧
      ∃ before ps, LongestViable brokenGroup.toList before ∧ Pieces ps before ∧
        (¬EndsInGroup ps → ⟨0, 1, 1⟩ = Position.after before) := by
  obtain ⟨before, ps, longest, pieces, outside, _⟩ := error_position parse_brokenGroup
  exact ⟨parse_brokenGroup, before, ps, longest, pieces, outside⟩

theorem viable_opening : Viable ['('] := by
  have opens : ∀ rest, Piece.opening.Takes ('(' :: rest) rest := fun rest =>
    Piece.takes_of_mem_fixed (by decide) rfl
  have keyword : (Piece.keyword .input).Takes ['i', 'n', ':', 'a', ')'] ['a', ')'] :=
    Piece.takes_of_mem_fixed (by decide) rfl
  have named : (Piece.name "a").Takes ['a', ')'] [')'] := by
    refine ⟨rfl, ?_, fun _ _ => nameEnds_cons (by decide)⟩
    rintro _ ⟨⟩
    decide
  have closes : Piece.closing.Takes [')'] [] := Piece.takes_of_mem_fixed (by decide) rfl
  refine ⟨[.opening], [.keyword .input, .name "a", .closing], ['i', 'n', ':', 'a', ')'],
    .event ⟨.input, "a"⟩, ?_, ?_, by cbv⟩
  . exact .cons (.done _) (opens []) (.nil (.done []))
  . exact .cons (.done _) (opens _) (.cons (.done _) keyword (.cons (.done _) named
      (.cons (.done _) closes (.nil (.done [])))))

/-- The text goes wrong on its second line, but it is said to go wrong where it begins. -/
theorem error_position_ne_after_longest :
    ¬∀ text e before, parse text = .error e → LongestViable text.toList before →
      e.position = Position.after before := by
  intro located
  obtain ⟨before, _, _, _, _, _, _, _, _, longest, _⟩ := exists_walk brokenGroup
  have same := congrArg Position.offset (located _ _ before parse_brokenGroup longest)
  have long : 1 ≤ before.length :=
    longest.longest ['('] ⟨"in:a *\n in:b)".toList, rfl⟩ viable_opening
  have ne : before ≠ [] := List.length_pos_iff.1 long
  exact absurd same (Nat.ne_of_lt (Text.byteSize_pos ne))

end Language

end Interaction
