import Interaction.Proofs.Definition.Located
import Mathlib

/-!
This module contains that references can stand in for the events of a language: whatever choice is
read from a text, be this a language or a definition file, its references are its events from left
to right, each at the bytes where its label stands, and none of them overlaps another.
-/

namespace Interaction

open Interaction.Parser

theorem Text.utf8ByteSize_ofList (a : List Char) : (String.ofList a).utf8ByteSize = byteSize a := by
  induction a with
  | nil => rfl
  | cons x a ih =>
    rw [String.ofList_cons, String.utf8ByteSize_append, String.utf8ByteSize_singleton, ih, byteSize]

/--
Whether the label of an event stands in a text at the bytes of its reference. Both ends of the
reference lie between characters.
-/
def Reference.StandsIn (r : Reference) (text : String) : Prop :=
  ∃ before after : String, text = before ++ r.event.label ++ after ∧
    r.start = before.utf8ByteSize ∧ r.stop = (before ++ r.event.label).utf8ByteSize

namespace LanguageText

structure ReadFrom (t : LanguageText) (text : String) (c c' : Cursor) : Prop where
  reached : (Cursor.ofText text.toList).Reaches c
  read : Language.parseChoice.result c = some (t, c')

/-- Whether the references of a language are its events, and lie in order in a part of a text. -/
structure KeepsPlaces (t : LanguageText) (text : String) (start stop : Nat) : Prop where
  events_eq : t.references.map (·.event) = t.language.events
  standsIn : ∀ r ∈ t.references, r.StandsIn text
  inside : ∀ r ∈ t.references, start ≤ r.start ∧ r.start < r.stop ∧ r.stop ≤ stop
  apart : t.references.Pairwise fun r s => r.stop ≤ s.start

end LanguageText

variable {text : String} {t : LanguageText} {c c' : Cursor} {rs : List Reference} {r : Reference}

theorem Cursor.standsIn_of_passes {e : Event} (reaches : (Cursor.ofText text.toList).Reaches c)
    (passes : c.Passes e.label.toList c') : Reference.StandsIn ⟨e, c.offset, c'.offset⟩ text := by
  obtain ⟨before, start⟩ := reaches
  have offset : c.offset = Text.byteSize before := start.offset_eq.trans (Nat.zero_add _)
  refine ⟨.ofList before, .ofList c'.rest, ?_, ?_, ?_⟩
  . have whole : text.toList = before ++ c.rest := start.rest_eq
    rw [passes.rest_eq] at whole
    apply String.toList_injective
    simp [whole]
  . rw [Text.utf8ByteSize_ofList]
    exact offset
  . have label : e.label.utf8ByteSize = Text.byteSize e.label.toList := by
      rw [← Text.utf8ByteSize_ofList, String.ofList_toList]
    rw [String.utf8ByteSize_append, Text.utf8ByteSize_ofList, label, ← offset]
    exact passes.offset_eq

theorem Placed.standsIn (h : Placed c rs c') (reaches : (Cursor.ofText text.toList).Reaches c) :
    ∀ r ∈ rs, r.StandsIn text := by
  induction h with
  | nil => simp
  | cons onward passes _ ih =>
    have here := reaches.trans onward
    rw [List.forall_mem_cons]
    exact ⟨Cursor.standsIn_of_passes here passes, ih (here.trans ⟨_, passes⟩)⟩

theorem LanguageText.ReadFrom.keepsPlaces (h : t.ReadFrom text c c') :
    t.KeepsPlaces text c.offset c'.offset := by
  have located := Language.locates_parseChoice _ _ _ h.read
  have inOrder := located.placed.inOrder
  refine ⟨located.events_eq, located.placed.standsIn h.reached, ?_, ?_⟩
  . intro r mem
    exact inOrder.mem (List.mem_map_of_mem mem)
  . exact List.pairwise_map.1 inOrder.pairwise

theorem Language.exists_readFrom_of_parseText (found : parseText.run text = .ok t) :
    ∃ c c', t.ReadFrom text c c' ∧ Skips text.toList c.rest ∧ Skips c'.rest [] := by
  obtain ⟨c₃, found⟩ := run_eq_ok_iff.1 found
  unfold parseText at found
  simp only [result_expecting, result_bind_eq_some_iff] at found
  obtain ⟨_, c, skip, t', c', read, _, c₂, skip', _, _, ended, last⟩ := found
  cases last
  rw [result_endOfText] at ended
  split at ended
  . next none =>
    have skips := (skips_of_layout skip').1
    rw [none] at skips
    exact ⟨c, c', ⟨advances_layout _ _ _ skip, read⟩, (skips_of_layout skip).1, skips⟩
  . cases ended

namespace Definition

variable {d : Definition} {ds : List Definition} {start stop : Nat}

theorem exists_readFrom_of_parseFile (found : parseFile.run text = .ok ds) (mem : d ∈ ds)
    (block : .language t start stop ∈ d.parts) :
    ∃ c c', t.ReadFrom text c c' ∧ InBraces start c c' stop := by
  obtain ⟨_, found⟩ := run_eq_ok_iff.1 found
  obtain ⟨_, _, toFirst, read⟩ := exists_definitions_of_parseFile found
  obtain ⟨_, _, toDefinition, parsed⟩ := exists_reached_of_mem_repeated advances_parse read mem
  obtain ⟨_, _, toPart, part⟩ := exists_parsePart_of_parse parsed block
  obtain ⟨c, c', toChoice, choice, inBraces⟩ :=
    exists_choice_of_parseLanguage (parseLanguage_of_parsePart part)
  have reached := (toFirst.trans toDefinition).trans (toPart.trans toChoice)
  exact ⟨c, c', ⟨reached, choice⟩, inBraces⟩

/--
The references of a choice that is read from a text keep the places of its events. A language text
is such a choice but for the layout around it, and so is what a language block has in its braces.
-/
theorem references_keep_places (text : String) :
    (∀ t c c', LanguageText.ReadFrom t text c c' → t.KeepsPlaces text c.offset c'.offset) ∧
      (∀ t, Language.parseText.run text = .ok t →
        ∃ c c', t.ReadFrom text c c' ∧ Skips text.toList c.rest ∧ Skips c'.rest []) ∧
      (∀ ds, parseFile.run text = .ok ds → ∀ d ∈ ds, ∀ t start stop,
        .language t start stop ∈ d.parts →
          ∃ c c', t.ReadFrom text c c' ∧ InBraces start c c' stop) := by
  refine ⟨?_, ?_, ?_⟩
  . intro t c c' readFrom
    exact readFrom.keepsPlaces
  . intro t found
    exact Language.exists_readFrom_of_parseText found
  . intro ds found d mem t start stop block
    exact exists_readFrom_of_parseFile found mem block

def commentedLanguage (before : Nat) : LanguageText where
  language := .sequence [.input "a", .output "b"]
  references := [⟨.input "a", before + 8, before + 12⟩, ⟨.output "b", before + 16, before + 21⟩]

def commentedText : String := "// é\n (in:a) ; out:b"

def commentedFile : String :=
  "protocol p \x7b in a: T; language \x7b // é\n (in:a) ; out:b \x7d \x7d"

theorem references_keep_places_commented :
    Language.parseText.run commentedText = .ok (commentedLanguage 0) ∧
      parseFile.run commentedFile = .ok [⟨"p", [.channel ⟨.input "a", "T", 13, 21⟩,
        .language (commentedLanguage 33) 22 56], 0, 58⟩] ∧
      (∃ c c', (commentedLanguage 0).ReadFrom commentedText c c' ∧
        (commentedLanguage 0).KeepsPlaces commentedText c.offset c'.offset) ∧
      ∃ c c', (commentedLanguage 33).ReadFrom commentedFile c c' ∧ InBraces 22 c c' 56 ∧
        (commentedLanguage 33).KeepsPlaces commentedFile c.offset c'.offset := by
  have text : Language.parseText.run commentedText = .ok (commentedLanguage 0) := by cbv
  have file : parseFile.run commentedFile = .ok [⟨"p", [.channel ⟨.input "a", "T", 13, 21⟩,
      .language (commentedLanguage 33) 22 56], 0, 58⟩] := by
    cbv
  obtain ⟨keepsPlaces, whole, _⟩ := references_keep_places commentedText
  obtain ⟨keepsPlaces', _, blocks⟩ := references_keep_places commentedFile
  obtain ⟨c, c', readFrom, _⟩ := whole _ text
  obtain ⟨c₁, c₁', readFrom', inBraces⟩ :=
    blocks _ file _ List.mem_cons_self _ _ _ (List.mem_cons_of_mem _ List.mem_cons_self)
  exact ⟨text, file, ⟨c, c', readFrom, keepsPlaces _ _ _ readFrom⟩,
    ⟨c₁, c₁', readFrom', inBraces, keepsPlaces' _ _ _ readFrom'⟩⟩

end Definition

end Interaction
