import Interaction.Proofs.Language.Reading

/-!
This module contains which texts the reader of languages accepts: those of the grammar, each as the
language that its tokens stand for.
-/

namespace Interaction

open Interaction.Parser

namespace Category

def follow : Category → List Char
  | .operand => ['\x7d', ')', '|', ';', '*', '+', '?']
  | .item => ['\x7d', ')', '|', ';']
  | .joined .sequence => ['\x7d', ')', '|']
  | .joined .choice => ['\x7d', ')']
  | .others .sequence => ['\x7d', ')', '|']
  | .others .choice => ['\x7d', ')']

def Follows (i : Category) (rest : List Char) : Prop :=
  ∀ x, rest.head? = some x → x ∈ i.follow

variable {i j : Category} {k : Joint} {rest : List Char}

theorem follows_nil : i.Follows [] := by
  intro x h
  simp at h

theorem follows_cons {x : Char} (mem : x ∈ i.follow) : i.Follows (x :: rest) := by
  intro y h
  cases h
  exact mem

theorem Follows.mono (h : i.Follows rest) (sub : i.follow ⊆ j.follow) : j.Follows rest :=
  fun x head => sub (h x head)

theorem Follows.settled (h : i.Follows rest) : Settled rest := by
  have noLayout : (i.follow.all fun x => !isSpace x && x != '/') = true := by
    match i with
    | .operand => decide
    | .item => decide
    | .joined .sequence => decide
    | .joined .choice => decide
    | .others .sequence => decide
    | .others .choice => decide
  match rest with
  | [] => exact settled_nil
  | x :: rest => exact settled_cons_of_mem noLayout (h x rfl)

theorem Follows.nameEnds (h : operand.Follows rest) : NameEnds rest := by
  have stops : (operand.follow.all fun x => !isNameChar x) = true := by decide
  intro x head
  rw [← Bool.not_eq_true']
  exact List.all_eq_true.1 stops x (h x head)

theorem follows_others_iff : (others k).Follows rest ↔ (joined k).Follows rest := by
  cases k <;> exact Iff.rfl

theorem follows_joined (h : (joined k).Follows rest) : k.element.Follows rest := by
  apply h.mono
  cases k <;> decide

theorem follows_separator : k.element.Follows (k.separator.text.toList ++ rest) := by
  cases k with
  | sequence => exact follows_cons (x := ';') (by decide)
  | choice => exact follows_cons (x := '|') (by decide)

theorem separator_absent (h : (joined k).Follows rest) :
    ¬k.separator.text.toList <+: rest := by
  rintro ⟨text, rfl⟩
  cases k with
  | sequence => exact absurd (h ';' rfl) (by decide)
  | choice => exact absurd (h '|' rfl) (by decide)

theorem sign_absent (h : item.Follows rest) (s : Sign) : ¬s.text.toList <+: rest := by
  rintro ⟨text, rfl⟩
  cases s with
  | star => exact absurd (h '*' rfl) (by decide)
  | plus => exact absurd (h '+' rfl) (by decide)
  | question => exact absurd (h '?' rfl) (by decide)

end Category

namespace Language

variable {α : Type} {choice element : Parser LanguageText} {k : Joint} {c c' bound : Cursor}
variable {t : LanguageText} {texts : List LanguageText} {rest : List Char}
variable {ts us : List Token} {l : Language} {ls : List Language}

def Finds (p : Parser α) (languages : α → List Language) (c : Cursor) (ls : List Language)
    (rest : List Char) : Prop :=
  ∃ a c', p.result c = some (a, c') ∧ languages a = ls ∧ Skips c'.rest rest

def one (t : LanguageText) : List Language := [t.language]

def all (texts : List LanguageText) : List Language := texts.map (·.language)

theorem finds_event {e : Event} (isName : IsName e.channel)
    (spelling : Spelling [.event e] c.rest rest) (follows : Category.operand.Follows rest) :
    Finds (readOperand choice) one c [.event e] rest := by
  generalize eq : c.rest = text at spelling
  cases spelling with
  | cons skips last =>
    cases last
    obtain ⟨t, c', found, isEvent, rfl⟩ :=
      exists_result_parseEvent (x := if e.direction = .input then .inputEvent else .outputEvent)
        isName eq (follows.nameEnds.of_skips skips)
    refine ⟨t, c', ?_, congrArg (fun l => [l]) isEvent, skips⟩
    unfold readOperand
    match e with
    | ⟨.input, channel⟩ => exact result_orElse_of found
    | ⟨.output, channel⟩ =>
      rw [result_orElse_of_none]
      . exact result_orElse_of found
      . apply result_parseEvent_of_absent
        rintro ⟨tail, prefixed⟩
        rw [eq, Token.text, Event.toList_label, List.append_assoc] at prefixed
        simp [Direction.word] at prefixed

theorem result_parseSign_of {s : Sign} (h : c.rest = s.text.toList ++ rest) :
    ∃ c', parseSign.result c = some (s.apply, c') ∧ c'.rest = rest := by
  obtain ⟨c', found, text⟩ := result_readSign_of h
  have absent : ∀ s' : Sign, s' ≠ s → (readSign s').result c = none := by
    intro s' ne
    apply result_readSign_of_absent
    rintro ⟨tail, prefixed⟩
    have heads := congrArg List.head? (prefixed.trans h)
    -- different signs begin with different characters
    cases s <;> cases s' <;> first | exact ne rfl | cases heads
  refine ⟨c', ?_, text⟩
  rw [parseSign_eq]
  cases s with
  | star => exact result_orElse_of found
  | plus =>
    rw [result_orElse_of_none (absent .star (by decide))]
    exact result_orElse_of found
  | question =>
    rw [result_orElse_of_none (absent .star (by decide)),
      result_orElse_of_none (absent .plus (by decide))]
    exact found

theorem result_parseSign_of_absent (h : ∀ s : Sign, ¬s.text.toList <+: c.rest) :
    parseSign.result c = none := by
  rw [parseSign_eq, result_orElse_of_none (result_readSign_of_absent (h .star)),
    result_orElse_of_none (result_readSign_of_absent (h .plus))]
  exact result_readSign_of_absent (h .question)

theorem finds_group (spelling : Spelling (.opening :: (ts ++ [.closing])) c.rest rest)
    (inner : ∀ c₁ rest₁, c₁.left < c.left → Spelling ts c₁.rest rest₁ →
      (Category.joined .choice).Follows rest₁ → Finds choice one c₁ [l] rest₁) :
    Finds (readOperand choice) one c [l] rest := by
  generalize eq : c.rest = text at spelling
  cases spelling with
  | cons before spelling =>
    obtain ⟨text₁, within, closing⟩ := spelling.split
    cases closing with
    | @cons _ _ text₂ _ _ after last =>
      cases last
      obtain ⟨c₁, opening, rfl⟩ := result_literal_of (s := "(") eq
      have settled : Settled (Token.closing.text.toList ++ text₂) := Token.closing.settled_append
      obtain ⟨c₂, skipped, rfl⟩ := result_layout_of before (within.settled settled)
      have less : c₂.left < c.left := by
        have nonempty : 0 < Token.opening.text.toList.length := by decide
        have := before.suffix.length_le
        rw [Cursor.left_lt_iff, eq, List.length_append]
        omega
      have follows : (Category.joined .choice).Follows (Token.closing.text.toList ++ text₂) :=
        Category.follows_cons (by decide)
      obtain ⟨t, c₃, found, isOne, skips⟩ := inner c₂ _ less within follows
      cases isOne
      obtain ⟨c₄, skipped', text₄⟩ := result_layout_of skips settled
      obtain ⟨c₅, closing, rfl⟩ := result_literal_of (s := ")") text₄
      refine ⟨t, c₅, ?_, rfl, after⟩
      -- no event begins with a parenthesis
      have absent : ∀ x d, (parseEvent x d).result c = none := by
        intro x d
        apply result_parseEvent_of_absent
        rw [eq]
        rintro ⟨tail, prefixed⟩
        cases d <;> simp [Direction.word, Token.text] at prefixed
      unfold readOperand parseGroup
      rw [result_orElse_of_none (absent _ _), result_orElse_of_none (absent _ _), result_expecting,
        result_bind_of opening, result_bind_of skipped, result_bind_of found,
        result_bind_of skipped', result_bind_of closing]
      rfl

theorem finds_plain (follows : Category.item.Follows rest)
    (operand : Finds (readOperand choice) one c [l] rest) :
    Finds (parseItem choice) one c [l] rest := by
  obtain ⟨t, c₁, found, isOne, skips⟩ := operand
  obtain ⟨c₂, skipped, rfl⟩ := result_layout_of skips follows.settled
  have absent := result_parseSign_of_absent (Category.sign_absent follows)
  refine ⟨t, c₂, ?_, isOne, .done _⟩
  rw [result_parseItem, result_bind_of found, result_bind_of skipped,
    result_bind_of (result_optional_of_none absent)]
  rfl

theorem finds_signed {s : Sign} {text : List Char} (sign : Spelling [.sign s] text rest)
    (operand : Finds (readOperand choice) one c [l] text) :
    Finds (parseItem choice) one c [s.apply l] rest := by
  obtain ⟨t, c₁, found, isOne, skips⟩ := operand
  cases isOne
  cases sign with
  | cons after last =>
    cases last
    obtain ⟨c₂, skipped, text₂⟩ := result_layout_of skips (Token.sign s).settled_append
    obtain ⟨c₃, signed, rfl⟩ := result_parseSign_of text₂
    refine ⟨{ t with language := s.apply t.language }, c₃, ?_, rfl, after⟩
    rw [result_parseItem, result_bind_of found, result_bind_of skipped,
      result_bind_of (result_optional_of signed)]
    rfl

theorem left_lt_of_more (sound : Sound k.element element)
    (h : (k.more element).result c = some (t, c')) : c'.left < c.left := by
  obtain ⟨ts, _, spelling⟩ := spelling_of_more sound h
  rw [Cursor.left_lt_iff]
  exact spelling.length_lt (List.cons_ne_nil _ _)

theorem finds_none {mid : List Char} (skips : Skips c.rest mid)
    (follows : (Category.joined k).Follows mid) :
    Finds (manyOf (do layout; k.more element)) all c [] mid := by
  obtain ⟨c₁, skipped, rfl⟩ := result_layout_of skips follows.settled
  refine ⟨[], c, ?_, rfl, skips⟩
  apply result_many_of_none
  rw [result_bind_of skipped]
  unfold Joint.more
  exact result_bind_of_none (result_literal_of_absent (Category.separator_absent follows))

theorem finds_another {text mid : List Char} (sound : Sound k.element element)
    (skips : Skips c.rest mid) (spelling : Spelling (k.separator :: ts) mid text)
    (first : ∀ c₁, c₁.left < c.left → Spelling ts c₁.rest text → Finds element one c₁ [l] text)
    (others : ∀ c₁, c₁.left < c.left → Skips c₁.rest text →
      Finds (manyOf (do layout; k.more element)) all c₁ ls rest) (settled : Settled text) :
    Finds (manyOf (do layout; k.more element)) all c (l :: ls) rest := by
  cases spelling with
  | cons before spelling =>
    obtain ⟨c₁, skipped, text₁⟩ := result_layout_of skips k.separator.settled_append
    obtain ⟨c₂, separator, rfl⟩ := result_literal_of text₁
    obtain ⟨c₃, skipped', rfl⟩ := result_layout_of before (spelling.settled settled)
    have nonempty : 0 < k.separator.text.toList.length := by cases k <;> decide
    have less : c₃.left < c.left := by
      have := skips.suffix.length_le
      have := before.suffix.length_le
      rw [Cursor.left_lt_iff]
      rw [List.length_append] at *
      omega
    obtain ⟨t, c₄, found, isOne, after⟩ := first c₃ less spelling
    cases isOne
    have more : (k.more element).result c₁ = some (t, c₄) := by
      unfold Joint.more
      rw [result_bind_of separator, result_bind_of skipped', found]
    -- the repeated reader goes on only where something was read
    have less' : c₄.left < c.left := by
      have := left_lt_of_more sound more
      have := skips.suffix.length_le
      rw [Cursor.left_lt_iff] at *
      rw [text₁] at *
      omega
    obtain ⟨texts, c₅, found', rfl, last⟩ := others c₄ less' after
    refine ⟨t :: texts, c₅, ?_, rfl, last⟩
    apply result_many_of _ less' found'
    rw [result_bind_of skipped, more]

theorem finds_joined {text : List Char} (sound : Sound k.element element)
    (first : Finds element one c [l] text) (settled : Settled text)
    (others : ∀ c₁, Skips c₁.rest text → c₁.left ≤ c.left →
      Finds (manyOf (do layout; k.more element)) all c₁ ls rest) :
    Finds (k.read element) one c [k.join (l :: ls)] rest := by
  obtain ⟨t, c₁, found, isOne, skips⟩ := first
  cases isOne
  obtain ⟨c₂, skipped, rfl⟩ := result_layout_of skips settled
  have le : c₂.left ≤ c.left := by
    obtain ⟨ts, _, spelling⟩ := sound _ _ _ found
    rw [c.left_eq, c₂.left_eq]
    exact Nat.le_trans skips.suffix.length_le spelling.length_le
  obtain ⟨texts, c₃, found', rfl, last⟩ := others c₂ (.done _) le
  refine ⟨.join k.combine (t :: texts), c₃, ?_, ?_, last⟩
  . unfold Joint.read
    have moves : ∀ c t c', (k.more element).result c = some (t, c') → c'.left < c.left :=
      fun _ _ _ => left_lt_of_more sound
    rw [← result_repeated_of_settled moves settled] at found'
    rw [result_bind_of found, result_bind_of skipped, result_bind_of found']
    rfl
  . exact congrArg (fun l => [l]) LanguageText.language_join

def inside (c : Cursor) : Parser LanguageText := below c parseChoice

theorem sound_inside : Sound (.joined .choice) (inside bound) := by
  intro c t c' found
  exact sound_parseChoice c t c' (result_below_eq_some found).2

theorem sound_reader : Sound k.element (k.reader (inside bound)) := by
  cases k with
  | sequence => exact sound_parseItem sound_inside
  | choice => exact sound_parseSequence sound_inside

/--
Whether the reader of a category finds languages where their tokens come next. Before what follows
the first of some joined languages, there may be layout.
-/
def Reads (bound c : Cursor) (rest : List Char) (ts : List Token) (ls : List Language) :
    Category → Prop
  | .operand => Spelling ts c.rest rest → Finds (readOperand (inside bound)) one c ls rest
  | .item => Spelling ts c.rest rest → Finds (parseItem (inside bound)) one c ls rest
  | .joined k => Spelling ts c.rest rest → Finds (k.read (k.reader (inside bound))) one c ls rest
  | .others k => ∀ mid, Skips c.rest mid → Spelling ts mid rest →
      Finds (manyOf (do layout; k.more (k.reader (inside bound)))) all c ls rest

theorem finds_element (h : Reads bound c rest ts ls k.element)
    (spelling : Spelling ts c.rest rest) : Finds (k.reader (inside bound)) one c ls rest := by
  cases k with
  | sequence => exact h spelling
  | choice =>
    obtain ⟨t, c', found, rest⟩ := h spelling
    exact ⟨t, c', result_parseSequence.trans found, rest⟩

theorem follows_element (others : Derives (.others k) us ls) {text : List Char}
    (spelling : Spelling us text rest) (follows : (Category.joined k).Follows rest) :
    k.element.Follows text := by
  cases others with
  | none =>
    cases spelling
    exact Category.follows_joined follows
  | another =>
    cases spelling
    exact Category.follows_separator

theorem reads_of_derives {i : Category} (h : Derives i ts ls) :
    ∀ bound c rest, c.left ≤ bound.left → i.Follows rest → Reads bound c rest ts ls i := by
  induction h with
  | event isName =>
    intro bound c rest _ follows spelling
    exact finds_event isName spelling follows
  | group _ ih =>
    intro bound c rest le follows spelling
    apply finds_group spelling
    intro c₁ rest₁ less within follows
    -- the group begins further on, so that the nested reader is tried there
    obtain ⟨t, c₂, found, rest⟩ := ih c₁ c₁ rest₁ (Nat.le_refl _) follows within
    refine ⟨t, c₂, ?_, rest⟩
    unfold inside
    rw [result_below (Nat.lt_of_lt_of_le less le), result_parseChoice]
    exact found
  | plain _ ih =>
    intro bound c rest le follows spelling
    apply finds_plain follows
    exact ih bound c rest le (follows.mono (by decide)) spelling
  | signed s _ ih =>
    intro bound c rest le follows spelling
    obtain ⟨text, operand, sign⟩ := spelling.split
    apply finds_signed sign
    apply ih bound c text le _ operand
    cases sign
    cases s <;> exact Category.follows_cons (by decide)
  | joined _ others ih ih' =>
    intro bound c rest le follows spelling
    obtain ⟨text, first, last⟩ := spelling.split
    have follows' := follows_element others last follows
    apply finds_joined sound_reader
    . exact finds_element (ih bound c text le follows') first
    . exact follows'.settled
    . intro c₁ skips le'
      rw [← Category.follows_others_iff] at follows
      exact ih' bound c₁ rest (Nat.le_trans le' le) follows text skips last
  | none k =>
    intro bound c rest _ follows mid skips spelling
    cases spelling
    exact finds_none skips (Category.follows_others_iff.1 follows)
  | another _ others ih ih' =>
    intro bound c rest le follows mid skips spelling
    obtain ⟨text, first, last⟩ := @Spelling.split mid rest (_ :: _) _ spelling
    have follows' := follows_element others last (Category.follows_others_iff.1 follows)
    apply finds_another sound_reader skips first _ _ follows'.settled
    . intro c₁ less spelling
      have le' := Nat.le_of_lt (Nat.lt_of_lt_of_le less le)
      exact finds_element (ih bound c₁ text le' follows') spelling
    . intro c₁ less skips
      exact ih' bound c₁ rest (Nat.le_of_lt (Nat.lt_of_lt_of_le less le)) follows text skips last

theorem parse_eq_ok_iff {text : String} : parse text = .ok l ↔
    ∃ t c', parseText.result (.ofText text.toList) = some (t, c') ∧ t.language = l := by
  unfold parse Parser.run result
  match parseText (.ofText text.toList) with
  | ⟨none, _⟩ => simp [Except.map]
  | ⟨some (t, _), _⟩ => simp [Except.map]

theorem parse_eq_ok_iff_derives {text : String} : parse text = .ok l ↔
    ∃ ts mid, Skips text.toList mid ∧ Spelling ts mid [] ∧ Derives (.joined .choice) ts [l] := by
  rw [parse_eq_ok_iff]
  unfold parseText
  simp only [result_expecting, result_bind_eq_some_iff]
  constructor
  . rintro ⟨t, c', ⟨_, c₁, before, t', c₂, read, _, c₃, after, _, c₄, ended, last⟩, rfl⟩
    cases last
    obtain ⟨ts, derives, spelling⟩ := sound_parseChoice _ _ _ read
    have ne : ts ≠ [] := derives.tokens_ne_nil (by simp)
    rw [result_endOfText] at ended
    split at ended
    . next empty =>
      refine ⟨ts, c₁.rest, (skips_of_layout before).1, ?_, derives⟩
      rw [← empty]
      exact spelling.skips ne (skips_of_layout after).1
    . cases ended
  . rintro ⟨ts, mid, skips, spelling, derives⟩
    obtain ⟨c₁, before, rfl⟩ := result_layout_of (c := .ofText text.toList) skips
      (spelling.settled settled_nil)
    obtain ⟨t, c₂, found, isOne, skips'⟩ :=
      reads_of_derives derives c₁ c₁ [] (Nat.le_refl _) Category.follows_nil spelling
    cases isOne
    obtain ⟨c₃, after, ended⟩ := result_layout_of skips' settled_nil
    refine ⟨t, c₃, ⟨(), c₁, before, t, c₂, ?_, (), c₃, after, (), c₃, ?_, rfl⟩, rfl⟩
    . rw [result_parseChoice]
      exact found
    . rw [result_endOfText, if_pos ended]

end Language

end Interaction
