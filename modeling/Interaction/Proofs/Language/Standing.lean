import Interaction.Proofs.Language.Piece

/-!
This module contains how a text of a language stands where it breaks off. What may come next
depends only on the last piece, and on how many parentheses are open, so that the pieces that a text
begins with lead to one place at most. From there a text can always be completed.
-/

namespace Interaction

inductive Stage where
  | operand
  | name
  | sign
  | joint
  deriving DecidableEq, Repr

namespace Stage

def after : Option Piece → Stage
  | none => .operand
  | some (.keyword _) => .name
  | some (.name _) => .sign
  | some .opening => .operand
  | some .closing => .sign
  | some .semicolon => .operand
  | some .bar => .operand
  | some (.sign _) => .joint

def allows : Stage → Piece → Bool
  | .operand, .keyword _ => true
  | .operand, .opening => true
  | .name, .name _ => true
  | .sign, .sign _ => true
  | .sign, .closing => true
  | .sign, .semicolon => true
  | .sign, .bar => true
  | .joint, .closing => true
  | .joint, .semicolon => true
  | .joint, .bar => true
  | _, _ => false

def Gap : Stage → List Char → List Char → Prop
  | .name, text, rest => text = rest
  | _, text, rest => Skips text rest

end Stage

/-- How a text stands after some pieces: the number of open groups, and what comes next. -/
structure Standing where
  depth : Nat
  stage : Stage
  deriving DecidableEq, Repr

namespace Standing

def start : Standing := ⟨0, .operand⟩

structure Step (s : Standing) (p : Piece) (s' : Standing) : Prop where
  allowed : s.stage.allows p = true
  stage_eq : s'.stage = .after (some p)
  depth_eq : s'.depth + [p].count .closing = s.depth + [p].count .opening

structure Complete (s : Standing) : Prop where
  closed : s.depth = 0
  stage_eq : s.stage = .sign ∨ s.stage = .joint

structure Stuck (s : Standing) (text : List Char) : Prop where
  settled : s.stage ≠ .name → Settled text
  noStep : ∀ p rest s', p.Takes text rest → ¬s.Step p s'

end Standing

/-- Whether pieces lead from one place in a text to another, with layout before and behind them. -/
inductive Leads : Standing → List Char → List Piece → Standing → List Char → Prop where
  | done {s : Standing} {text rest : List Char} : s.stage.Gap text rest → Leads s text [] s rest
  | step {s s' t : Standing} {p : Piece} {ps : List Piece} {text mid rest last : List Char} :
    s.stage.Gap text mid → p.Takes mid rest → s.Step p s' → Leads s' rest ps t last →
      Leads s text (p :: ps) t last

variable {p q : Piece} {ps qs : List Piece} {s s' s₁ s₂ t : Standing} {stage : Stage}
variable {a b text mid mid' rest rest' last last' : List Char}

namespace Stage

theorem gap_iff_of_ne (ne : stage ≠ .name) : stage.Gap text rest ↔ Skips text rest := by
  cases stage with
  | name => exact absurd rfl ne
  | _ => exact Iff.rfl

theorem Gap.skips (h : stage.Gap text rest) : Skips text rest := by
  cases stage with
  | name =>
    cases h
    exact .done text
  | _ => exact h

theorem Gap.eq_of_name (h : stage.Gap text rest) (named : stage = .name) : text = rest := by
  subst named
  exact h

theorem Gap.trans (h : stage.Gap text a) (h' : stage.Gap a b) : stage.Gap text b := by
  cases stage with
  | name => exact Eq.trans h h'
  | _ => exact Skips.trans h h'

theorem Gap.catch_up (h : stage.Gap text a) (h' : stage.Gap text b)
    (settled : stage ≠ .name → Settled b) : stage.Gap a b := by
  cases stage with
  | name => exact Eq.trans (Eq.symm h) h'
  | _ => exact Skips.catch_up h h' (settled (by decide))

theorem Gap.unique (h : stage.Gap text a) (h' : stage.Gap text b)
    (settled : stage ≠ .name → Settled a) (settled' : stage ≠ .name → Settled b) : a = b := by
  cases stage with
  | name => exact Eq.trans (Eq.symm h) h'
  | _ => exact Skips.unique h (settled (by decide)) h' (settled' (by decide))

theorem Gap.eq_of_settled (h : stage.Gap text rest) (settled : stage ≠ .name → Settled text) :
    rest = text := by
  cases stage with
  | name => exact Eq.symm h
  | _ => exact Skips.eq_of_settled h (settled (by decide))

theorem Gap.exchange (h : stage.Gap text rest) (settled : stage ≠ .name → Settled rest) :
    ∃ white, text = white ++ rest ∧ ∀ other : List Char,
      (stage ≠ .name → rest = [] → ∀ x, other.head? = some x → x = '\n') →
        stage.Gap (white ++ other) other := by
  by_cases named : stage = .name
  . subst named
    exact ⟨[], h, fun other _ => Eq.refl other⟩
  . rw [gap_iff_of_ne named] at h
    obtain ⟨white, eq, exchange⟩ := h.exchange (settled named)
    refine ⟨white, eq, ?_⟩
    intro other ends
    rw [gap_iff_of_ne named]
    exact exchange other (ends named)

theorem gap_refl (stage : Stage) (text : List Char) : stage.Gap text text := by
  cases stage with
  | name => exact Eq.refl text
  | _ => exact Skips.done text

theorem allows_name_iff (h : stage.allows p = true) : (∃ s, p = .name s) ↔ stage = .name := by
  cases stage <;> cases p <;> simp [allows] at h ⊢

end Stage

namespace Standing

theorem Step.unique (h : s.Step p s₁) (h' : s.Step q s₂) (takes : p.Takes text rest)
    (takes' : q.Takes text rest') : p = q ∧ rest = rest' ∧ s₁ = s₂ := by
  have same : p = q := by
    by_cases named : s.stage = .name
    . obtain ⟨n, rfl⟩ := (Stage.allows_name_iff h.allowed).2 named
      obtain ⟨n', rfl⟩ := (Stage.allows_name_iff h'.allowed).2 named
      rw [Piece.name_unique takes takes']
    . apply takes.eq_of_mem_fixed takes'
      . exact Piece.mem_fixed fun n eq => named ((Stage.allows_name_iff h.allowed).1 ⟨n, eq⟩)
      . exact Piece.mem_fixed fun n eq => named ((Stage.allows_name_iff h'.allowed).1 ⟨n, eq⟩)
  subst same
  refine ⟨rfl, takes.rest_unique takes', ?_⟩
  have depth := h.depth_eq.trans h'.depth_eq.symm
  have stage := h.stage_eq.trans h'.stage_eq.symm
  cases s₁
  cases s₂
  simp only [mk.injEq] at *
  exact ⟨by omega, stage⟩

theorem Step.of_name {n n' : String} (h : s.Step (.name n) s') : s.Step (.name n') s' := by
  have named := (Stage.allows_name_iff h.allowed).1 ⟨n, rfl⟩
  refine ⟨?_, h.stage_eq, h.depth_eq⟩
  rw [named]
  rfl

end Standing

namespace Leads

theorem trans (h : Leads s text ps s' rest) (h' : Leads s' rest qs t last) :
    Leads s text (ps ++ qs) t last := by
  induction h with
  | done gap =>
    cases h' with
    | done gap' => exact .done (gap.trans gap')
    | step gap' takes step inner => exact .step (gap.trans gap') takes step inner
  | step gap takes step _ ih => exact .step gap takes step (ih h')

theorem suffix (h : Leads s text ps t last) : last <:+ text := by
  induction h with
  | done gap => exact gap.skips.suffix
  | step gap takes _ _ ih => exact ih.trans (takes.suffix.trans gap.skips.suffix)

theorem exists_of_stuck (h : Leads s text ps s₁ rest) (stuck : s₁.Stuck rest)
    (h' : Leads s text qs s₂ rest') : ∃ us, ps = qs ++ us ∧ Leads s₂ rest' us s₁ rest := by
  induction h' generalizing ps with
  | done gap' =>
    refine ⟨ps, rfl, ?_⟩
    cases h with
    | done gap => exact .done (gap'.catch_up gap stuck.settled)
    | step gap takes step inner =>
      exact .step (gap'.catch_up gap fun _ => takes.settled) takes step inner
  | step gap' takes' step' _ ih =>
    cases h with
    | done gap =>
      cases gap.unique gap' stuck.settled fun _ => takes'.settled
      exact absurd step' (stuck.noStep _ _ _ takes')
    | step gap takes step inner =>
      cases gap.unique gap' (fun _ => takes.settled) fun _ => takes'.settled
      obtain ⟨rfl, rfl, rfl⟩ := step.unique step' takes takes'
      obtain ⟨us, rfl, leads⟩ := ih inner
      exact ⟨us, rfl, leads⟩

theorem unique_of_stuck (h : Leads s text ps s₁ rest) (stuck : s₁.Stuck rest)
    (h' : Leads s text qs s₂ rest') (stuck' : s₂.Stuck rest') :
    ps = qs ∧ s₁ = s₂ ∧ rest = rest' := by
  obtain ⟨us, rfl, leads⟩ := h.exists_of_stuck stuck h'
  cases leads with
  | done gap => exact ⟨List.append_nil _, rfl, gap.eq_of_settled stuck'.settled⟩
  | step gap takes step _ =>
    cases gap.eq_of_settled stuck'.settled
    exact absurd step (stuck'.noStep _ _ _ takes)

end Leads

namespace Standing

def Continues (s : Standing) (text rest : List Char) : Prop :=
  if s.stage = .name then text = rest else text = '\n' :: rest

theorem Continues.gap (h : s.Continues text rest) : s.stage.Gap text rest := by
  unfold Continues at h
  split at h
  . next named =>
    rw [h]
    exact Stage.gap_refl _ _
  . next other =>
    rw [h, Stage.gap_iff_of_ne other]
    exact .space rfl (.done rest)

end Standing

namespace Leads

theorem exists_pieces (h : Leads s text ps t last) (settled : t.stage ≠ .name → Settled last) :
    ∃ a, text = a ++ last ∧ Pieces ps a ∧ ∀ next rest, t.Continues next rest →
      Leads s (a ++ next) ps t rest ∧ (s.stage ≠ .name → NameEnds text → NameEnds (a ++ next)) := by
  induction h with
  | @done s text last gap =>
    obtain ⟨white, eq, exchange⟩ := gap.exchange settled
    refine ⟨white, eq, .nil ?_, ?_⟩
    . have skips := (exchange [] fun _ _ => by simp).skips
      rwa [List.append_nil] at skips
    . intro next rest continues
      have head : s.stage ≠ .name → next.head? = some '\n' := by
        intro other
        rw [Standing.Continues, if_neg other] at continues
        rw [continues]
        rfl
      have newLine : s.stage ≠ .name → last = [] → ∀ x, next.head? = some x → x = '\n' := by
        intro other _ x first
        rw [head other] at first
        cases first
        rfl
      refine ⟨.done ((exchange next newLine).trans continues.gap), ?_⟩
      intro other _
      apply NameEnds.of_skips _ (exchange next newLine).skips
      intro x first
      rw [head other] at first
      cases first
      decide
  | @step s s' t p ps text mid rest last gap takes step _ ih =>
    obtain ⟨a, rfl, pieces, goesOn⟩ := ih settled
    obtain ⟨white, rfl, exchange⟩ := gap.exchange fun _ => takes.settled
    have ne := takes.ne_nil
    have ends : ∀ n, p = .name n → NameEnds a := fun n eq => (takes.ends n eq).of_append
    refine ⟨white ++ (p.text.toList ++ a), ?_, ?_, ?_⟩
    . rw [takes.text_eq, List.append_assoc, List.append_assoc]
    . exact .cons (exchange _ fun _ none => absurd none ne).skips ⟨rfl, takes.isName, ends⟩ pieces
    . intro next rest continues
      obtain ⟨leads, nameEnds⟩ := goesOn next rest continues
      rw [List.append_assoc, List.append_assoc]
      constructor
      . refine .step (exchange _ fun _ none => absurd none ne) ⟨rfl, takes.isName, ?_⟩ step leads
        intro n eq
        apply nameEnds _ (takes.ends n eq)
        rw [step.stage_eq, eq]
        rintro ⟨⟩
      . intro _ ends
        apply ends.of_head
        have filled : white ++ p.text.toList ≠ [] :=
          List.append_ne_nil_of_right_ne_nil _ (Piece.text_ne_nil takes)
        rw [takes.text_eq, ← List.append_assoc white, ← List.append_assoc white,
          List.head?_append_of_ne_nil _ filled, List.head?_append_of_ne_nil _ filled]

theorem exists_takes_name {n : String} (isName : IsName n) (text : List Char) :
    ∃ n' rest, (Piece.name n').Takes (n.toList ++ text) rest ∧ rest <:+ text := by
  refine ⟨n ++ String.ofList (text.takeWhile Parser.isNameChar), text.dropWhile Parser.isNameChar,
    ⟨?_, ?_, ?_⟩, List.dropWhile_suffix _⟩
  . rw [Piece.text, String.toList_append, String.toList_ofList, List.append_assoc,
      List.takeWhile_append_dropWhile]
  . rintro _ ⟨⟩
    constructor
    . rw [Ne, ← String.toList_eq_nil_iff, String.toList_append, List.append_eq_nil_iff, not_and]
      exact fun none => absurd none isName.ne_nil
    . rw [String.toList_append, String.toList_ofList, List.all_append, Bool.and_eq_true]
      exact ⟨isName.2, List.all_takeWhile⟩
  . rintro _ ⟨⟩ x head
    have other := List.head?_dropWhile_not Parser.isNameChar text
    rw [head] at other
    simpa using other

theorem eq_nil_of_skips (skips : Skips a []) (settled : Settled (a ++ b)) : a = [] := by
  obtain ⟨rest, skips', suffix⟩ := skips.exists_append b
  rw [skips'.eq_of_settled settled] at suffix
  have short := suffix.length_le
  rw [List.length_append] at short
  exact List.eq_nil_of_length_eq_zero (by omega)

theorem settled_of_name (h : Leads s text ps t []) (complete : t.Complete)
    (named : s.stage = .name) : Settled text := by
  cases h with
  | done => rcases complete.stage_eq with other | other <;> rw [named] at other <;> cases other
  | step gap takes _ _ => exact (gap.eq_of_name named) ▸ takes.settled

theorem gap_append (gap : stage.Gap (a ++ b) (mid ++ b)) (skips : Skips a mid)
    (takes : p.Takes mid rest) (text : List Char) : stage.Gap (a ++ text) (mid ++ text) := by
  by_cases named : stage = .name
  . rw [List.append_cancel_right (gap.eq_of_name named)]
    exact Stage.gap_refl _ _
  . rw [Stage.gap_iff_of_ne named]
    exact skips.append takes.settled takes.ne_nil text

theorem exists_leads_of_pieces (pieces : Pieces ps a) (h : Leads s (a ++ b) (ps ++ qs) t [])
    (complete : t.Complete) (text : List Char) :
    ∃ us s' rest, Leads s (a ++ text) us s' rest ∧ rest <:+ text := by
  induction pieces generalizing s with
  | @nil a skips =>
    obtain ⟨rest, skips', suffix⟩ := skips.exists_append text
    by_cases named : s.stage = .name
    -- behind a keyword there is a name, so that the layout is empty
    . rw [eq_nil_of_skips skips (h.settled_of_name complete named)]
      exact ⟨[], s, text, .done (Stage.gap_refl _ _), List.suffix_refl _⟩
    . exact ⟨[], s, rest, .done ((Stage.gap_iff_of_ne named).2 skips'), suffix⟩
  | @cons p ps a mid rest skips takes pieces ih =>
    cases h with
    | @step _ s' _ _ _ _ mid' rest' _ gap takes' step inner =>
      have same : mid' = mid ++ b := gap.skips.unique takes'.settled
        (skips.append takes.settled takes.ne_nil b) (takes.settled_append b)
      subst same
      have behind : rest' = rest ++ b := by
        have eq := takes'.text_eq
        rw [takes.text_eq, List.append_assoc, List.append_cancel_left_eq] at eq
        exact eq.symm
      subst behind
      have gap' := gap_append gap skips takes text
      rw [takes.text_eq, List.append_assoc] at gap'
      by_cases cut : rest = [] ∧ ∃ n, p = .name n
      -- the name may go on in the other text
      . obtain ⟨rfl, n, rfl⟩ := cut
        obtain ⟨n', rest, takes', suffix⟩ := exists_takes_name (takes.isName n rfl) text
        exact ⟨[.name n'], s', rest, .step gap' takes' step.of_name (.done (Stage.gap_refl _ _)),
          suffix⟩
      . obtain ⟨us, t', last, leads, suffix⟩ := ih inner
        refine ⟨p :: us, t', last, .step gap' ⟨rfl, takes.isName, ?_⟩ step leads, suffix⟩
        intro n eq
        apply (takes.ends n eq).of_head
        cases rest with
        | nil => exact absurd ⟨rfl, n, eq⟩ cut
        | cons x rest => rfl

end Leads

namespace Standing

theorem exists_closings (depth : Nat) {stage : Stage} (h : stage = .sign ∨ stage = .joint) :
    ∃ text ps t, t.Complete ∧ Leads ⟨depth, stage⟩ text ps t [] ∧ NameEnds text := by
  induction depth generalizing stage with
  | zero =>
    exact ⟨[], [], ⟨0, stage⟩, ⟨rfl, h⟩, .done (Stage.gap_refl _ _), fun _ head => by cases head⟩
  | succ depth ih =>
    obtain ⟨text, ps, t, complete, leads, _⟩ := ih (.inl rfl)
    have takes : Piece.closing.Takes (')' :: text) text :=
      Piece.takes_of_mem_fixed (by decide) rfl
    have step : Step ⟨depth + 1, stage⟩ .closing ⟨depth, .sign⟩ := by
      refine ⟨?_, rfl, rfl⟩
      rcases h with rfl | rfl <;> rfl
    exact ⟨_, _, t, complete, .step (Stage.gap_refl _ _) takes step leads,
      nameEnds_cons (by decide)⟩

theorem exists_completion (s : Standing) :
    ∃ text ps t, t.Complete ∧ Leads s text ps t [] := by
  have fromName : ∀ depth, ∃ text ps t, t.Complete ∧ Leads ⟨depth, .name⟩ text ps t [] := by
    intro depth
    obtain ⟨text, ps, t, complete, leads, ends⟩ := exists_closings depth (.inl rfl)
    have takes : (Piece.name "a").Takes ("a".toList ++ text) text := by
      refine ⟨rfl, ?_, fun _ _ => ends⟩
      rintro _ ⟨⟩
      decide
    have step : Step ⟨depth, .name⟩ (.name "a") ⟨depth, .sign⟩ := ⟨rfl, rfl, rfl⟩
    exact ⟨_, _, t, complete, .step (Stage.gap_refl _ _) takes step leads⟩
  obtain ⟨depth, stage⟩ := s
  cases stage with
  | operand =>
    obtain ⟨text, ps, t, complete, leads⟩ := fromName depth
    have takes : (Piece.keyword .input).Takes ("in:".toList ++ text) text :=
      Piece.takes_of_mem_fixed (by decide) rfl
    have step : Step ⟨depth, .operand⟩ (.keyword .input) ⟨depth, .name⟩ := ⟨rfl, rfl, rfl⟩
    exact ⟨_, _, t, complete, .step (Stage.gap_refl _ _) takes step leads⟩
  | name => exact fromName depth
  | sign =>
    obtain ⟨text, ps, t, complete, leads, _⟩ := exists_closings depth (.inl rfl)
    exact ⟨text, ps, t, complete, leads⟩
  | joint =>
    obtain ⟨text, ps, t, complete, leads, _⟩ := exists_closings depth (.inr rfl)
    exact ⟨text, ps, t, complete, leads⟩

structure Agrees (s : Standing) (ps : List Piece) : Prop where
  stage_eq : s.stage = .after ps.getLast?
  depth_eq : s.depth + ps.count .closing = ps.count .opening

theorem agrees_start : start.Agrees [] := ⟨rfl, rfl⟩

theorem Agrees.step (h : s.Agrees ps) (step : s.Step p s') : s'.Agrees (ps ++ [p]) := by
  constructor
  . rw [step.stage_eq, List.getLast?_append]
    rfl
  . have before := h.depth_eq
    have after := step.depth_eq
    rw [List.count_append, List.count_append]
    omega

theorem Agrees.leads (h : s.Agrees ps) (leads : Leads s text qs t last) : t.Agrees (ps ++ qs) := by
  induction leads generalizing ps with
  | done => rwa [List.append_nil]
  | step _ _ step _ ih =>
    have later := ih (h.step step)
    rwa [List.append_assoc] at later

end Standing

end Interaction
