import Interaction.Proofs.Language.Reading
import Interaction.Proofs.Parsing.Advance

/-!
This module contains that languages read from a text come with the places of their events: from left
to right, each where its label stands.
-/

namespace Interaction

open Interaction.Parser

namespace Language

theorem eventsOfAll_eq (ls : List Language) : eventsOfAll ls = ls.flatMap events := by
  induction ls with
  | nil => rfl
  | cons l ls ih => rw [eventsOfAll, ih, List.flatMap_cons]

theorem events_apply (s : Sign) (l : Language) : (s.apply l).events = l.events := by
  cases s <;> rfl

theorem events_join (k : Joint) (ls : List Language) :
    (k.join ls).events = ls.flatMap events := by
  match ls with
  | [l] => simp [Joint.join]
  | [] => cases k <;> rfl
  | l :: l' :: ls =>
    have joined : k.join (l :: l' :: ls) = k.combine (l :: l' :: ls) := rfl
    rw [joined, ← eventsOfAll_eq]
    cases k <;> rfl

end Language

inductive Placed : Cursor → List Reference → Cursor → Prop where
  | nil {c c' : Cursor} : c.Reaches c' → Placed c [] c'
  | cons {c c₁ c₂ c' : Cursor} {e : Event} {rs : List Reference} :
    c.Reaches c₁ → c₁.Passes e.label.toList c₂ → Placed c₂ rs c' →
      Placed c (⟨e, c₁.offset, c₂.offset⟩ :: rs) c'

namespace Placed

variable {c c' c'' : Cursor} {rs rs' : List Reference}

theorem reaches (h : Placed c rs c') : c.Reaches c' := by
  induction h with
  | nil reaches => exact reaches
  | cons reaches passes _ ih => exact (reaches.trans ⟨_, passes⟩).trans ih

theorem before (reaches : c.Reaches c') (h : Placed c' rs c'') : Placed c rs c'' := by
  cases h with
  | nil reaches' => exact .nil (reaches.trans reaches')
  | cons reaches' passes rest => exact .cons (reaches.trans reaches') passes rest

theorem append (h : Placed c rs c') (h' : Placed c' rs' c'') : Placed c (rs ++ rs') c'' := by
  induction h with
  | nil reaches => exact h'.before reaches
  | cons reaches passes _ ih => exact .cons reaches passes (ih h')

theorem after (h : Placed c rs c') (reaches : c'.Reaches c'') : Placed c rs c'' := by
  have := h.append (.nil reaches)
  rwa [List.append_nil] at this

end Placed

namespace LanguageText

variable {k : Joint} {c c' c'' : Cursor} {t : LanguageText} {ts : List LanguageText}

structure Located (t : LanguageText) (c c' : Cursor) : Prop where
  events_eq : t.references.map (·.event) = t.language.events
  placed : Placed c t.references c'

structure AllLocated (ts : List LanguageText) (c c' : Cursor) : Prop where
  events_eq : (ts.flatMap (·.references)).map (·.event) =
    (ts.map (·.language)).flatMap Language.events
  placed : Placed c (ts.flatMap (·.references)) c'

theorem Located.before (reaches : c.Reaches c') (h : t.Located c' c'') : t.Located c c'' :=
  ⟨h.events_eq, h.placed.before reaches⟩

theorem Located.after (h : t.Located c c') (reaches : c'.Reaches c'') : t.Located c c'' :=
  ⟨h.events_eq, h.placed.after reaches⟩

theorem AllLocated.nil (c : Cursor) : AllLocated [] c c := ⟨rfl, .nil (.refl c)⟩

theorem AllLocated.cons (first : t.Located c c') (others : AllLocated ts c' c'') :
    AllLocated (t :: ts) c c'' := by
  constructor
  . rw [List.flatMap_cons, List.map_append, first.events_eq, others.events_eq, List.map_cons,
      List.flatMap_cons]
  . rw [List.flatMap_cons]
    exact first.placed.append others.placed

theorem references_join : (join k.combine (t :: ts)).references = (t :: ts).flatMap references := by
  cases ts with
  | nil => simp [join]
  | cons => rfl

theorem located_join (h : AllLocated (t :: ts) c c') : (join k.combine (t :: ts)).Located c c' := by
  constructor
  . rw [references_join, h.events_eq, language_join, Language.events_join, List.map_cons]
  . rw [references_join]
    exact h.placed

end LanguageText

namespace Language

variable {choice element : Parser LanguageText} {k : Joint} {c c' : Cursor}
variable {t : LanguageText} {texts : List LanguageText}

def Locates (p : Parser LanguageText) : Prop :=
  ∀ c t c', p.result c = some (t, c') → t.Located c c'

theorem locates_parseEvent (x : Expectation) (d : Direction) : Locates (parseEvent x d) := by
  intro c t c' found
  unfold parseEvent at found
  rw [result_expecting, result_bind_of result_offset, result_bind_eq_some_iff] at found
  obtain ⟨_, c₁, keyword, found⟩ := found
  rw [result_bind_eq_some_iff] at found
  obtain ⟨channel, c₂, named, last⟩ := found
  cases last
  have passes : c.Passes (Event.label ⟨d, channel⟩).toList c' := by
    rw [Event.toList_label]
    exact (passes_of_literal keyword).trans (passes_of_name named)
  exact ⟨rfl, .cons (.refl c) passes (.nil (.refl c'))⟩

theorem locates_readOperand (h : Locates choice) : Locates (readOperand choice) := by
  intro c t c' found
  unfold readOperand at found
  rw [result_orElse, Option.or_eq_some_iff, result_orElse, Option.or_eq_some_iff] at found
  rcases found with found | ⟨_, found | ⟨_, found⟩⟩
  . exact locates_parseEvent _ _ c t c' found
  . exact locates_parseEvent _ _ c t c' found
  . unfold parseGroup at found
    simp only [result_expecting, result_bind_eq_some_iff] at found
    obtain ⟨_, c₁, opening, _, c₂, before, inner, c₃, read, _, c₄, after, _, c₅, closing, last⟩ :=
      found
    cases last
    have start : c.Reaches c₂ :=
      (advances_literal _ _ _ _ opening).trans (advances_layout _ _ _ before)
    have stop : c₃.Reaches c' :=
      (advances_layout _ _ _ after).trans (advances_literal _ _ _ _ closing)
    exact ((h c₂ t c₃ read).before start).after stop

theorem advances_parseSign : Advances parseSign := by
  have advances : ∀ s : Sign, Advances (readSign s) := by
    intro s
    exact ((advances_literal s.text).expecting _).bind fun _ => advances_pure
  rw [parseSign_eq]
  exact (advances .star).orElse ((advances .plus).orElse (advances .question))

theorem locates_parseItem (h : Locates choice) : Locates (parseItem choice) := by
  intro c t c' found
  simp only [result_parseItem, result_bind_eq_some_iff] at found
  obtain ⟨operand, c₁, read, _, c₂, after, sign, c₃, found, last⟩ := found
  cases last
  have located := (locates_readOperand h c operand c₁ read).after <|
    (advances_layout _ _ _ after).trans (advances_parseSign.optional _ _ _ found)
  refine ⟨?_, located.placed⟩
  -- a repetition sign does not change which events there are
  match signed : parseSign.result c₂ with
  | none =>
    rw [result_optional_of_none signed] at found
    cases found
    exact located.events_eq
  | some (f, c₄) =>
    rw [result_optional_of signed] at found
    cases found
    obtain ⟨s, rfl, _⟩ := rest_of_parseSign signed
    exact located.events_eq.trans (events_apply s operand.language).symm

theorem locates_more (h : Locates element) : Locates (k.more element) := by
  intro c t c' found
  unfold Joint.more at found
  simp only [result_bind_eq_some_iff] at found
  obtain ⟨_, c₁, separator, _, c₂, after, read⟩ := found
  exact (h c₂ t c' read).before <|
    (advances_literal _ _ _ _ separator).trans (advances_layout _ _ _ after)

theorem allLocated_of_repeated (h : Locates element)
    (found : (repeated (k.more element)).result c = some (texts, c')) :
    LanguageText.AllLocated texts c c' := by
  have chain := chain_of_repeated found
  clear found
  induction chain with
  | nil c => exact .nil c
  | cons step _ ih =>
    obtain ⟨c₁, reaches, read⟩ := step
    exact .cons ((locates_more h _ _ _ read).before reaches) ih

theorem locates_read (h : Locates element) : Locates (k.read element) := by
  intro c t c' found
  unfold Joint.read at found
  simp only [result_bind_eq_some_iff] at found
  obtain ⟨first, c₁, read, _, c₂, after, others, c₃, found, last⟩ := found
  cases last
  have located := (h c first c₁ read).after (advances_layout _ _ _ after)
  exact LanguageText.located_join (.cons located (allLocated_of_repeated h found))

theorem locates_parseSequence (h : Locates choice) : Locates (parseSequence choice) := by
  intro c t c' found
  rw [result_parseSequence] at found
  exact locates_read (k := .sequence) (locates_parseItem h) c t c' found

theorem locates_parseChoice : Locates parseChoice := by
  intro c
  induction n : c.left using Nat.strongRecOn generalizing c with
  | _ n ih =>
    intro t c' found
    rw [result_parseChoice] at found
    have inner : Locates (below c parseChoice) := by
      intro c₁ t₁ c₂ found
      obtain ⟨less, found⟩ := result_below_eq_some found
      exact ih c₁.left (n ▸ less) c₁ rfl t₁ c₂ found
    exact locates_read (k := .choice) (locates_parseSequence inner) c t c' found

end Language

end Interaction
