import Interaction.Proofs.Language.RoundTrip
import Mathlib.Algebra.BigOperators.Group.List.Basic

/-!
This module contains the proof that the text of a language has the fewest parentheses of all texts
that are read as the language, so that none of them can be left out.
-/

namespace Interaction

variable {ts us : List Token} {l : Language} {ls : List Language} {k : Joint} {i : Category}

def Category.encloses : Category → Language → Bool
  | .operand => Language.enclosedInRepetition
  | .item => Language.enclosedInSequence
  | .joined .sequence => Language.enclosedInEither
  | .joined .choice => fun _ => false
  | .others k => k.encloses

theorem Joint.encloses_element (k : Joint) : k.element.encloses = k.encloses := by
  cases k <;> rfl

theorem Category.encloses_operand_of_item (h : Category.item.encloses l = true) :
    Category.operand.encloses l = true := by
  cases l with
  | sequence => rfl
  | either => rfl
  | _ => cases h

theorem Category.encloses_element_of_joined (h : (Category.joined k).encloses l = true) :
    k.element.encloses l = true := by
  cases k with
  | choice => cases h
  | sequence =>
    cases l with
    | either => rfl
    | _ => cases h

def Category.each : Category → Category
  | .others k => k.element
  | i => i

theorem Category.each_element (k : Joint) : k.element.each = k.element := by
  cases k <;> rfl

namespace Language

/-- How many opening parentheses a language is written with where a category is due. -/
def openings (i : Category) (l : Language) : Nat :=
  (Token.enclose (i.encloses l) l.tokens).count .opening

theorem count_enclose (needed : Bool) (ts : List Token) :
    (Token.enclose needed ts).count .opening = needed.toNat + ts.count .opening := by
  cases needed with
  | false => simp [Token.enclose]
  | true => simp [Token.enclose, Nat.add_comm]

theorem openings_eq (i : Category) (l : Language) :
    l.openings i = (i.encloses l).toNat + l.tokens.count .opening :=
  count_enclose _ _

theorem openings_le_openings {j : Category} (h : i.encloses l = true → j.encloses l = true) :
    l.openings i ≤ l.openings j := by
  rw [openings_eq, openings_eq]
  exact Nat.add_le_add_right (Bool.toNat_le_toNat h) _

theorem openings_choice (l : Language) :
    l.openings (.joined .choice) = l.tokens.count .opening := by
  rw [openings_eq]
  exact Nat.zero_add _

theorem count_separator (k : Joint) (ts : List Token) :
    (k.separator :: ts).count .opening = ts.count .opening := by
  cases k <;> rfl

theorem count_tokensOfOthers (k : Joint) (ls : List Language) :
    (tokensOfOthers k ls).count .opening = (ls.map (openings k.element)).sum := by
  induction ls with
  | nil => rfl
  | cons l ls ih =>
    rw [tokensOfOthers, count_separator, List.count_append, ih, ← k.encloses_element]
    rfl

theorem openings_combine (k : Joint) (l : Language) (ls : List Language) :
    (k.combine (l :: ls)).openings (.joined k) = ((l :: ls).map (openings k.element)).sum := by
  have plain : (Category.joined k).encloses (k.combine (l :: ls)) = false := by cases k <;> rfl
  have tokens : (k.combine (l :: ls)).tokens = tokensOf k (l :: ls) := by cases k <;> rfl
  rw [openings_eq, plain, tokens, tokensOf, List.count_append, count_tokensOfOthers,
    ← k.encloses_element]
  exact Nat.zero_add _

theorem openings_apply (s : Sign) (l : Language) :
    (s.apply l).openings .item = l.openings .operand := by
  have tokens : (s.apply l).tokens =
      Token.enclose (Category.operand.encloses l) l.tokens ++ [.sign s] := by cases s <;> rfl
  have plain : Category.item.encloses (s.apply l) = false := by cases s <;> rfl
  rw [openings_eq, plain, tokens, List.count_append]
  exact Nat.zero_add _

theorem openings_le_of_derives (h : Derives i ts ls) :
    (ls.map (openings i.each)).sum ≤ ts.count .opening := by
  induction h with
  | event => exact Nat.le_refl 0
  | @group ts l _ ih =>
    have inner : l.tokens.count .opening ≤ ts.count .opening := by
      rw [← openings_choice]
      exact ih
    have outer := openings_eq .operand l
    have atMost : (Category.operand.encloses l).toNat ≤ 1 := Bool.toNat_le _
    simp [Category.each]
    omega
  | plain _ ih =>
    exact (Nat.add_le_add_right (openings_le_openings Category.encloses_operand_of_item) _).trans ih
  | @signed ts l s _ ih =>
    have same := openings_apply s l
    simp [Category.each] at ih ⊢
    omega
  | @joined k ts us l ls _ _ ih ih' =>
    rw [Category.each_element] at ih
    rw [List.count_append]
    cases ls with
    | nil =>
      -- a single language stands for itself
      have less : l.openings (.joined k) ≤ l.openings k.element :=
        openings_le_openings Category.encloses_element_of_joined
      simp [Category.each, Joint.join] at ih ⊢
      omega
    | cons l' ls =>
      have whole := openings_combine k l (l' :: ls)
      simp [Category.each, Joint.join] at ih ih' whole ⊢
      omega
  | none => exact Nat.le_refl 0
  | @another k ts us l ls _ _ ih ih' =>
    rw [Category.each_element] at ih
    rw [count_separator, List.count_append]
    simp [Category.each] at ih ih' ⊢
    omega

theorem count_text_le (t : Token) : [t].count .opening ≤ t.text.toList.count '(' := by
  cases t with
  | opening => decide
  | _ => simp

theorem count_le_of_spelling {text rest : List Char} (h : Spelling ts text rest) :
    ts.count .opening ≤ text.count '(' := by
  induction h with
  | nil => exact Nat.zero_le _
  | @cons t ts text mid rest skips _ ih =>
    have later : mid.count '(' ≤ text.count '(' := skips.suffix.sublist.count_le _
    have first := count_text_le t
    rw [← List.singleton_append, List.count_append, List.count_append]
    omega

theorem count_label {e : Event} (isName : IsName e.channel) : e.label.toList.count '(' = 0 := by
  rw [Event.toList_label, List.count_append, Nat.add_eq_zero_iff, List.count_eq_zero,
    List.count_eq_zero]
  constructor
  . cases e.direction <;> decide
  . intro mem
    cases List.all_eq_true.1 isName.2 _ mem

theorem count_encloseIf {s : String} (needed : Bool) (h : s.toList.count '(' = ts.count .opening) :
    (encloseIf needed s).toList.count '(' = (Token.enclose needed ts).count .opening := by
  rw [count_enclose]
  cases needed with
  | false => simpa [encloseIf] using h
  | true => simp [encloseIf, String.toList_append, h, Nat.add_comm]

mutual

theorem count_render {l : Language} (h : l.Each Writable) :
    l.render.toList.count '(' = l.tokens.count .opening := by
  cases l with
  | event e => exact count_label h
  | sequence parts => exact count_renderParts h.2
  | either branches => exact count_renderBranches h.2
  | optional body =>
    have inner := count_encloseIf body.enclosedInRepetition (count_render h.2)
    simpa [render, tokens, String.toList_append] using inner
  | zeroOrMore body =>
    have inner := count_encloseIf body.enclosedInRepetition (count_render h.2)
    simpa [render, tokens, String.toList_append] using inner
  | oneOrMore body =>
    have inner := count_encloseIf body.enclosedInRepetition (count_render h.2)
    simpa [render, tokens, String.toList_append] using inner

theorem count_renderParts {parts : List Language} (h : EachOf Writable parts) :
    (renderParts parts).toList.count '(' = (tokensOf .sequence parts).count .opening := by
  match parts with
  | [] => rfl
  | [l] =>
    unfold renderParts tokensOf tokensOfOthers
    rw [List.append_nil]
    exact count_encloseIf _ (count_render h.1)
  | l :: m :: rest =>
    have first := count_encloseIf l.enclosedInSequence (count_render h.1)
    have others := count_renderParts h.2
    unfold renderParts tokensOf tokensOfOthers
    rw [String.toList_append, String.toList_append, List.count_append, List.count_append, first,
      others, List.count_append, count_separator]
    rfl

theorem count_renderBranches {branches : List Language} (h : EachOf Writable branches) :
    (renderBranches branches).toList.count '(' = (tokensOf .choice branches).count .opening := by
  match branches with
  | [] => rfl
  | [l] =>
    unfold renderBranches tokensOf tokensOfOthers
    rw [List.append_nil]
    exact count_encloseIf _ (count_render h.1)
  | l :: m :: rest =>
    have first := count_encloseIf l.enclosedInEither (count_render h.1)
    have others := count_renderBranches h.2
    unfold renderBranches tokensOf tokensOfOthers
    rw [String.toList_append, String.toList_append, List.count_append, List.count_append, first,
      others, List.count_append, count_separator]
    rfl

end

theorem count_render_le {text : String} (h : parse text = .ok l) :
    l.render.toList.count '(' ≤ text.toList.count '(' := by
  obtain ⟨ts, mid, skips, spelling, derives⟩ := parse_eq_ok_iff_derives.1 h
  have writable : l.Each Writable := (each_tidy_of_parse h).mono fun _ => Tidy.writable
  calc
    l.render.toList.count '(' = l.tokens.count .opening := count_render writable
    _ = (([l].map (openings (.joined .choice))).sum) := by simp [openings_choice]
    _ ≤ ts.count .opening := openings_le_of_derives derives
    _ ≤ mid.count '(' := count_le_of_spelling spelling
    _ ≤ text.toList.count '(' := skips.suffix.sublist.count_le _

/--
No parentheses can be left out of the text that a language is written as: without an opening and a
closing one behind it, a pair or not, the text is not read at all or as another language. No text of
the language has fewer of them.
-/
theorem parentheses_needed (text : String) (l : Language) (h : parse text = .ok l) :
    l.render.toList.count '(' ≤ text.toList.count '(' ∧
    ∀ before inside after, l.render.toList = before ++ '(' :: (inside ++ ')' :: after) →
      (∃ e, parse (String.ofList (before ++ inside ++ after)) = .error e) ∨
        ∃ l', parse (String.ofList (before ++ inside ++ after)) = .ok l' ∧ l' ≠ l := by
  refine ⟨count_render_le h, ?_⟩
  intro before inside after eq
  match read : parse (String.ofList (before ++ inside ++ after)) with
  | .error e => exact .inl ⟨e, rfl⟩
  | .ok l' =>
    refine .inr ⟨l', rfl, ?_⟩
    rintro rfl
    have fewest := count_render_le read
    have closing : (')' :: after).count '(' = after.count '(' := List.count_cons_of_ne (by decide)
    rw [eq, String.toList_ofList] at fewest
    simp only [List.count_append, List.count_cons_self, closing] at fewest
    omega

theorem parentheses_needed_choice :
    let l : Language := .zeroOrMore (.sequence [input "a", .either [output "b", output "c"]])
    let bare := "(in:a ; out:b | out:c) *"
    parse "(in:a ; ((out:b) | out:c))*" = .ok l ∧
      l.render = "(in:a ; (out:b | out:c)) *" ∧
      ((∃ e, parse bare = .error e) ∨ ∃ l', parse bare = .ok l' ∧ l' ≠ l) := by
  intro l bare
  have read : parse "(in:a ; ((out:b) | out:c))*" = .ok l := by cbv
  have written : l.render.toList =
      "(in:a ; ".toList ++ '(' :: ("out:b | out:c".toList ++ ')' :: ") *".toList) := by decide
  have same :
      String.ofList ("(in:a ; ".toList ++ "out:b | out:c".toList ++ ") *".toList) = bare := by
    decide
  refine ⟨read, by decide, ?_⟩
  rw [← same]
  exact (parentheses_needed _ l read).2 _ _ _ written

end Language

end Interaction
