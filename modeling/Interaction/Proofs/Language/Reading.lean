import Interaction.Proofs.Language.Grammar

/-!
This module contains what the reader of languages finds: a language that the tokens which come next
stand for.
-/

namespace Interaction

open Interaction.Parser

namespace Joint

def more (k : Joint) (element : Parser LanguageText) : Parser LanguageText := do
  literal k.separator.text
  layout
  element

def read (k : Joint) (element : Parser LanguageText) : Parser LanguageText := do
  let first ← element
  layout
  let others ← repeated (k.more element)
  pure (.join k.combine (first :: others))

def reader (choice : Parser LanguageText) : Joint → Parser LanguageText
  | .sequence => Language.parseItem choice
  | .choice => Language.parseSequence choice

end Joint

namespace LanguageText

theorem language_join {k : Joint} {t : LanguageText} {ts : List LanguageText} :
    (join k.combine (t :: ts)).language = k.join (t.language :: ts.map language) := by
  cases ts <;> rfl

end LanguageText

namespace Language

def readOperand (choice : Parser LanguageText) : Parser LanguageText :=
  parseEvent .inputEvent .input <|> parseEvent .outputEvent .output <|> parseGroup choice

variable {choice element : Parser LanguageText} {k : Joint} {c c' bound : Cursor}
variable {t : LanguageText} {texts : List LanguageText} {rest : List Char}

theorem result_parseItem : (parseItem choice).result c =
    (do
      let operand ← readOperand choice
      layout
      let sign ← Parser.optional parseSign
      pure { operand with language := sign.getD id operand.language }
      : Parser LanguageText).result c :=
  result_expecting

theorem result_parseSequence :
    (parseSequence choice).result c = (Joint.sequence.read (parseItem choice)).result c :=
  result_expecting

theorem result_parseChoice : parseChoice.result c =
    (Joint.choice.read (parseSequence (below c parseChoice))).result c := by
  have unfolded : parseChoice = nestedOf fun choice =>
      expecting .choice (Joint.choice.read (parseSequence choice)) := rfl
  rw [unfolded, result_nested, result_expecting]

theorem rest_of_parseEvent {x : Expectation} {d : Direction}
    (h : (parseEvent x d).result c = some (t, c')) :
    ∃ channel, IsName channel ∧ t.language = .event ⟨d, channel⟩ ∧
      c.rest = (Event.label ⟨d, channel⟩).toList ++ c'.rest := by
  unfold parseEvent at h
  rw [result_expecting, result_bind_of result_offset, result_bind_eq_some_iff] at h
  obtain ⟨_, c₁, keyword, h⟩ := h
  rw [result_bind_eq_some_iff] at h
  obtain ⟨channel, c₂, found, h⟩ := h
  cases h
  obtain ⟨isName, rest⟩ := rest_of_name found
  refine ⟨channel, isName, rfl, ?_⟩
  rw [rest_of_literal keyword, rest, Event.toList_label, List.append_assoc]

theorem exists_result_parseEvent {x : Expectation} {e : Event} (isName : IsName e.channel)
    (h : c.rest = e.label.toList ++ rest) (stop : NameEnds rest) :
    ∃ t c', (parseEvent x e.direction).result c = some (t, c') ∧ t.language = .event e ∧
      c'.rest = rest := by
  rw [Event.toList_label, List.append_assoc] at h
  obtain ⟨c₁, keyword, rest₁⟩ := result_literal_of h
  obtain ⟨c₂, found, rest₂⟩ := result_name_of isName rest₁ stop
  refine ⟨⟨.event e, [⟨e, c.offset, c₂.offset⟩]⟩, c₂, ?_, rfl, rest₂⟩
  unfold parseEvent
  rw [result_expecting, result_bind_of result_offset, result_bind_of keyword,
    result_bind_of found]
  rfl

theorem result_parseEvent_of_absent {x : Expectation} {d : Direction}
    (h : ¬(d.word ++ ":").toList <+: c.rest) : (parseEvent x d).result c = none := by
  unfold parseEvent
  rw [result_expecting, result_bind_of result_offset,
    result_bind_of_none (result_literal_of_absent h)]

def readSign (s : Sign) : Parser (Language → Language) := do
  expecting s.expectation (literal s.text)
  pure s.apply

theorem parseSign_eq :
    parseSign = (readSign .star <|> readSign .plus <|> readSign .question) :=
  rfl

theorem rest_of_readSign {s : Sign} {f : Language → Language}
    (h : (readSign s).result c = some (f, c')) :
    f = s.apply ∧ c.rest = s.text.toList ++ c'.rest := by
  unfold readSign at h
  rw [result_bind_eq_some_iff] at h
  obtain ⟨_, c₁, found, last⟩ := h
  cases last
  rw [result_expecting] at found
  exact ⟨rfl, rest_of_literal found⟩

theorem result_readSign_of {s : Sign} (h : c.rest = s.text.toList ++ rest) :
    ∃ c', (readSign s).result c = some (s.apply, c') ∧ c'.rest = rest := by
  obtain ⟨c', found, text⟩ := result_literal_of h
  refine ⟨c', ?_, text⟩
  unfold readSign
  rw [result_bind, result_expecting, found]
  rfl

theorem result_readSign_of_absent {s : Sign} (h : ¬s.text.toList <+: c.rest) :
    (readSign s).result c = none := by
  unfold readSign
  rw [result_bind, result_expecting, result_literal_of_absent h]
  rfl

theorem rest_of_parseSign {f : Language → Language} (h : parseSign.result c = some (f, c')) :
    ∃ s : Sign, f = s.apply ∧ c.rest = s.text.toList ++ c'.rest := by
  simp only [parseSign_eq, result_orElse, Option.or_eq_some_iff] at h
  rcases h with h | ⟨_, h | ⟨_, h⟩⟩
  . exact ⟨.star, rest_of_readSign h⟩
  . exact ⟨.plus, rest_of_readSign h⟩
  . exact ⟨.question, rest_of_readSign h⟩

def Sound (i : Category) (p : Parser LanguageText) : Prop :=
  ∀ c t c', p.result c = some (t, c') →
    ∃ ts, Derives i ts [t.language] ∧ Spelling ts c.rest c'.rest

theorem sound_readOperand (h : Sound (.joined .choice) choice) :
    Sound .operand (readOperand choice) := by
  intro c t c' found
  unfold readOperand at found
  rw [result_orElse, Option.or_eq_some_iff, result_orElse, Option.or_eq_some_iff] at found
  have ofEvent : ∀ x d, (parseEvent x d).result c = some (t, c') →
      ∃ ts, Derives .operand ts [t.language] ∧ Spelling ts c.rest c'.rest := by
    intro x d found
    obtain ⟨channel, isName, eq, text⟩ := rest_of_parseEvent found
    rw [eq, text]
    exact ⟨[.event ⟨d, channel⟩], .event isName, .token (.event ⟨d, channel⟩)⟩
  rcases found with found | ⟨_, found | ⟨_, found⟩⟩
  . exact ofEvent _ _ found
  . exact ofEvent _ _ found
  . unfold parseGroup at found
    simp only [result_expecting, result_bind_eq_some_iff] at found
    obtain ⟨_, c₁, opening, _, c₂, before, inner, c₃, read, _, c₄, after, _, c₅, closing, last⟩ :=
      found
    cases last
    obtain ⟨ts, derives, spelling⟩ := h _ _ _ read
    have ne : ts ≠ [] := derives.tokens_ne_nil (by simp)
    refine ⟨_, .group derives, ?_⟩
    rw [rest_of_literal opening]
    apply Spelling.cons (t := .opening) (skips_of_layout before).1
    apply (spelling.skips ne (skips_of_layout after).1).append
    rw [rest_of_literal closing]
    exact .token .closing

theorem sound_parseItem (h : Sound (.joined .choice) choice) :
    Sound .item (parseItem choice) := by
  intro c t c' found
  simp only [result_parseItem, result_bind_eq_some_iff] at found
  obtain ⟨operand, c₁, read, _, c₂, after, sign, c₃, found, last⟩ := found
  cases last
  obtain ⟨ts, derives, spelling⟩ := sound_readOperand h _ _ _ read
  have ne : ts ≠ [] := derives.tokens_ne_nil (by simp)
  have before := spelling.skips ne (skips_of_layout after).1
  match signed : parseSign.result c₂ with
  | none =>
    rw [result_optional_of_none signed] at found
    cases found
    exact ⟨ts, .plain derives, before⟩
  | some (f, c₄) =>
    rw [result_optional_of signed] at found
    cases found
    obtain ⟨s, rfl, text⟩ := rest_of_parseSign signed
    refine ⟨_, .signed s derives, before.append ?_⟩
    rw [text]
    exact .token (.sign s)

theorem spelling_of_more (h : Sound k.element element)
    (found : (k.more element).result c = some (t, c')) :
    ∃ ts, Derives k.element ts [t.language] ∧ Spelling (k.separator :: ts) c.rest c'.rest := by
  unfold Joint.more at found
  simp only [result_bind_eq_some_iff] at found
  obtain ⟨_, c₁, separator, _, c₂, after, read⟩ := found
  obtain ⟨ts, derives, spelling⟩ := h _ _ _ read
  refine ⟨ts, derives, ?_⟩
  rw [rest_of_literal separator]
  exact .cons (skips_of_layout after).1 spelling

theorem spelling_of_many (h : Sound k.element element)
    (found : (manyOf (do layout; k.more element)).result c = some (texts, c')) :
    ∃ us mid, Derives (.others k) us (texts.map (·.language)) ∧ Skips c.rest mid ∧
      Spelling us mid c'.rest := by
  have chain := chain_of_many found
  clear found
  induction chain with
  | nil c => exact ⟨[], c.rest, .none k, .done _, .nil _⟩
  | @cons c c₂ c' t texts first _ ih =>
    rw [result_bind_eq_some_iff] at first
    obtain ⟨_, c₁, before, read⟩ := first
    obtain ⟨ts, derives, spelling⟩ := spelling_of_more h read
    obtain ⟨us, mid, others, skips, rest⟩ := ih
    refine ⟨_, c₁.rest, .another derives others, (skips_of_layout before).1, ?_⟩
    exact (spelling.skips (List.cons_ne_nil _ _) skips).append rest

theorem sound_read (h : Sound k.element element) : Sound (.joined k) (k.read element) := by
  intro c t c' found
  unfold Joint.read at found
  simp only [repeated_eq, result_bind_eq_some_iff, result_orElse, Option.or_eq_some_iff] at found
  obtain ⟨first, c₁, read, _, c₂, after, others, c₃, found, last⟩ := found
  cases last
  obtain ⟨ts, derives, spelling⟩ := h _ _ _ read
  have ne : ts ≠ [] := by
    apply derives.tokens_ne_nil
    cases k <;> simp [Joint.element]
  have before := spelling.skips ne (skips_of_layout after).1
  rw [LanguageText.language_join]
  rcases found with ⟨second, c₄, read, rest, c₅, many, last⟩ | ⟨_, last⟩
  . cases last
    obtain ⟨us, derives', spelling'⟩ := spelling_of_more h read
    obtain ⟨vs, mid, others', skips, rest'⟩ := spelling_of_many h many
    refine ⟨_, .joined derives (.another derives' others'), before.append ?_⟩
    exact (spelling'.skips (List.cons_ne_nil _ _) skips).append rest'
  . cases last
    exact ⟨_, .joined derives (.none k), before.append (.nil _)⟩

theorem sound_parseSequence (h : Sound (.joined .choice) choice) :
    Sound (.joined .sequence) (parseSequence choice) := by
  intro c t c' found
  rw [result_parseSequence] at found
  exact sound_read (k := .sequence) (sound_parseItem h) c t c' found

theorem sound_parseChoice : Sound (.joined .choice) parseChoice := by
  intro c
  induction n : c.left using Nat.strongRecOn generalizing c with
  | _ n ih =>
    intro t c' found
    rw [result_parseChoice] at found
    -- the nested reader finds something further on only
    have inner : Sound (.joined .choice) (below c parseChoice) := by
      intro c₁ t₁ c₂ found
      obtain ⟨less, found⟩ := result_below_eq_some found
      exact ih c₁.left (n ▸ less) c₁ rfl t₁ c₂ found
    exact sound_read (k := .choice) (sound_parseSequence inner) c t c' found

end Language

end Interaction
