import Interaction.Proofs.Definition.Load
import Interaction.Proofs.Language.RoundTrip
import Interaction.Proofs.Text.Blank

/-!
This module contains the proof that definition files can express every protocol: the text of some
protocols is loaded as these protocols, without an error.
-/

namespace Interaction

open Interaction.Parser

namespace Definition

def escape (text : List Char) : List Char :=
  text.flatMap fun c => if c = '"' ∨ c = '\\' then ['\\', c] else [c]

variable {text : List Char} {c : Char}

theorem escape_cons (c : Char) (text : List Char) :
    escape (c :: text) = (if c = '"' ∨ c = '\\' then ['\\', c] else [c]) ++ escape text :=
  List.flatMap_cons

theorem unescape_escape (text : List Char) : unescape (escape text) = text := by
  induction text with
  | nil => rfl
  | cons c text ih =>
    rw [escape_cons]
    split
    . simp [unescape, ih]
    . next plain =>
      rw [not_or] at plain
      simp [unescape, plain.2, ih]

theorem quotable_escape (text : List Char) : Quotable (escape text) := by
  induction text with
  | nil => exact .nil
  | cons c text ih =>
    rw [escape_cons]
    split
    . exact .escaped ih
    . next plain =>
      rw [not_or] at plain
      exact .plain plain.1 plain.2 ih

theorem head?_escape (head : (escape text).head? = some c) : c = '\\' ∨ text.head? = some c := by
  cases text with
  | nil => cases head
  | cons x text =>
    rw [escape_cons] at head
    split at head
    . cases head
      exact .inl rfl
    . exact .inr head

theorem getLast?_escape (last : (escape text).getLast? = some c) : text.getLast? = some c := by
  induction text using List.reverseRecOn with
  | nil => cases last
  | append_singleton text x =>
    unfold escape at last
    rw [List.flatMap_append, List.flatMap_singleton] at last
    rw [List.getLast?_concat]
    split at last
    . simpa using last
    . simpa using last

theorem unpadded_escape (h : Text.Unpadded text) : Text.Unpadded (escape text) := by
  rintro c (head | last)
  . rcases head?_escape head with rfl | head
    . decide
    . exact h c (.inl head)
  . exact h c (.inr (getLast?_escape last))

theorem meaning_escape {d : String} (h : Text.Unpadded d.toList) :
    meaning (String.ofList (escape d.toList)) = d := by
  unfold meaning
  rw [String.toList_ofList, Text.trim_of_unpadded (unpadded_escape h), unescape_escape,
    String.ofList_toList]

end Definition

theorem skips_space (text : List Char) : Skips (' ' :: text) text := .space rfl (.done text)

namespace OutlinePart

def text : OutlinePart → String
  | .description d => "description \"" ++ String.ofList (Definition.escape d.toList) ++ "\";"
  | .channel e type => e.direction.word ++ " " ++ e.channel ++ ": " ++ type ++ ";"
  | .language l => "language \x7b " ++ l.render ++ " \x7d"

def Expressible : OutlinePart → Prop
  | .description d => Text.Unpadded d.toList
  | .channel e type => IsName e.channel ∧ IsPayloadType type
  | .language l => l.Each Language.Tidy

variable {part : OutlinePart}

theorem written_text (h : part.Expressible) (rest : List Char) :
    Written (part.text.toList ++ rest) part rest := by
  cases part with
  | description d =>
    have quotable := Definition.quotable_escape d.toList
    rw [← String.toList_ofList (l := Definition.escape d.toList)] at quotable
    have written := Written.description (skips_space _) quotable (.done (';' :: rest))
    rw [Definition.meaning_escape h] at written
    have eq : (text (.description d)).toList ++ rest = "description".toList ++ ' ' :: '"' ::
        ((String.ofList (Definition.escape d.toList)).toList ++ '"' :: ';' :: rest) := by
      simp [text]
    rw [eq]
    exact written
  | channel e type =>
    have eq : (text (.channel e type)).toList ++ rest = e.direction.word.toList ++ ' ' ::
        (e.channel.toList ++ ':' :: ' ' :: (type.toList ++ ';' :: rest)) := by
      simp [text]
    rw [eq]
    exact .channel (nameEnds_cons (by decide)) (skips_space _) h.1 (.done _) (skips_space _) h.2
      (.done _)
  | language l =>
    have writable := h.mono fun _ => Language.Tidy.writable
    have spelling := Language.spells_render writable (' ' :: '\x7d' :: rest) _ (skips_space _)
    have derives := Language.derives_choice (Language.derives_tokens writable)
    rw [Language.normalize_of_tidy h] at derives
    have eq : (text (.language l)).toList ++ rest = "language".toList ++ ' ' :: '\x7b' :: ' ' ::
        (l.render.toList ++ ' ' :: '\x7d' :: rest) := by
      simp [text]
    rw [eq]
    exact .language (skips_space _) (skips_space _) spelling derives

end OutlinePart

theorem chain_of_texts {α : Type} {R : List Char → α → List Char → Prop} {print : α → String}
    {between : String} {as : List α} (spaces : ∀ c ∈ between.toList, isSpace c = true)
    (written : ∀ a ∈ as, ∀ rest, R ((print a).toList ++ rest) a rest) (rest : List Char) :
    Chain (WithLayout R)
      ((String.join (as.map fun a => print a ++ between)).toList ++ rest) as rest := by
  induction as with
  | nil => exact .nil rest
  | cons a as ih =>
    rw [List.forall_mem_cons] at written
    rw [List.map_cons, String.join_cons, String.toList_append, String.toList_append,
      List.append_assoc, List.append_assoc]
    exact .cons ⟨_, written.1 _, .of_spaces spaces⟩ (ih written.2)

theorem Channels.eq_of_table {c c' : Channels}
    (same : ∀ direction, c.table direction = c'.table direction) : c = c' := by
  obtain ⟨_, _⟩ := c
  obtain ⟨_, _⟩ := c'
  cases same .input
  cases same .output
  rfl

namespace Outline

def text (o : Outline) : String :=
  "protocol " ++ o.name ++ " \x7b " ++ String.join (o.parts.map fun part => part.text ++ " ") ++
    "\x7d"

variable {o : Outline} {os : List Outline}

def Expressible (o : Outline) : Prop := IsName o.name ∧ ∀ part ∈ o.parts, part.Expressible

theorem written_text (h : o.Expressible) (rest : List Char) :
    Written (o.text.toList ++ rest) o rest := by
  have spaces : ∀ c ∈ " ".toList, isSpace c = true := by simp [isSpace]
  have chain := chain_of_texts spaces
    (fun part mem => OutlinePart.written_text (h.2 part mem)) ('\x7d' :: rest)
  have eq : o.text.toList ++ rest = "protocol".toList ++ ' ' :: (o.name.toList ++ ' ' ::
      '\x7b' :: ' ' :: ((String.join (o.parts.map fun part => part.text ++ " ")).toList ++
        '\x7d' :: rest)) := by
    simp [text]
  rw [eq]
  exact .protocol (nameEnds_cons (by decide)) (skips_space _) h.1 (skips_space _) (skips_space _)
    chain

theorem fileText_of_texts {between : String} (spaces : ∀ c ∈ between.toList, isSpace c = true)
    (h : ∀ o ∈ os, o.Expressible) :
    FileText (String.join (os.map fun o => o.text ++ between)).toList os := by
  have chain := chain_of_texts spaces (fun o mem => written_text (h o mem)) []
  rw [List.append_nil] at chain
  exact ⟨_, .done _, chain⟩

theorem Describes.unique {p q : String × Protocol} (h : o.Describes p) (h' : o.Describes q) :
    p = q := by
  obtain ⟨name, p⟩ := p
  obtain ⟨name', q⟩ := q
  obtain rfl : name = name' := h.name_eq.trans h'.name_eq.symm
  have found : ∀ (e : Event) type, (p.channels.table e.direction).get? e.channel = some type ↔
      (q.channels.table e.direction).get? e.channel = some type := fun e type =>
    (h.table_iff e type).trans (h'.table_iff e type).symm
  have description : p.description = q.description :=
    h.description_eq.trans h'.description_eq.symm
  have channels : p.channels = q.channels := Channels.eq_of_table fun direction =>
    Table.eq_of_get? fun channel => found ⟨direction, channel⟩
  have language : [p.language] = [q.language] := h.languages_eq.symm.trans h'.languages_eq
  rw [Protocol.eq_of_parts description channels (List.singleton_inj.1 language)]

end Outline

namespace Protocol

def outline (name : String) (p : Protocol) : Outline where
  name
  parts := .description p.description ::
    (p.channels.inputs.entries.map (fun (channel, type) => .channel (.input channel) type) ++
      (p.channels.outputs.entries.map (fun (channel, type) => .channel (.output channel) type) ++
        [.language p.language]))

/-- Whether a protocol has names, types, a description and a language that can be written. -/
structure Expressible (p : Protocol) : Prop where
  unpadded : Text.Unpadded p.description.toList
  inputs : ∀ channel type, (channel, type) ∈ p.channels.inputs.entries →
    IsName channel ∧ IsPayloadType type
  outputs : ∀ channel type, (channel, type) ∈ p.channels.outputs.entries →
    IsName channel ∧ IsPayloadType type
  tidy : p.language.Each Language.Tidy

variable {name : String} {p : Protocol}

theorem expressible_outline (isName : IsName name) (h : p.Expressible) :
    (p.outline name).Expressible := by
  refine ⟨isName, ?_⟩
  intro part mem
  simp only [outline, List.mem_cons, List.mem_append, List.mem_map, Prod.exists] at mem
  rcases mem with rfl | ⟨channel, type, mem, rfl⟩ | ⟨channel, type, mem, rfl⟩ | rfl | none
  . exact h.unpadded
  . exact h.inputs channel type mem
  . exact h.outputs channel type mem
  . exact h.tidy
  . cases none

theorem nodup_events (table : Table PayloadType) (direction : Direction) :
    (table.entries.map fun entry => (⟨direction, entry.1⟩ : Event)).Nodup := by
  apply List.Nodup.of_map Event.channel
  rw [List.map_map]
  exact table.nodup_keys

theorem declarations_outline : (p.outline name).declarations =
    p.channels.inputs.entries.map (fun (channel, type) => (.input channel, type)) ++
      p.channels.outputs.entries.map fun (channel, type) => (.output channel, type) := by
  simp [outline, Outline.declarations, OutlinePart.channel?, List.filterMap_append,
    List.filterMap_map]

theorem describes_outline : (p.outline name).Describes (name, p) where
  name_eq := rfl
  description_eq := rfl
  languages_eq := by
    simp [outline, Outline.languages, OutlinePart.language?, List.filterMap_append,
      List.filterMap_map]
  table_iff := by
    rintro ⟨direction, channel⟩ type
    rw [declarations_outline, List.mem_append]
    cases direction with
    | input =>
      change p.channels.inputs.get? channel = some type ↔ _
      rw [Table.get?_eq_some_iff]
      simp [Event.input, Event.output]
    | output =>
      change p.channels.outputs.get? channel = some type ↔ _
      rw [Table.get?_eq_some_iff]
      simp [Event.input, Event.output]

theorem wellFormed_outline : (p.outline name).WellFormed where
  describedOnce := by
    simp [outline, Outline.descriptions, OutlinePart.description?, List.filterMap_append,
      List.filterMap_map]
  oneLanguage := by
    rw [describes_outline.languages_eq]
    rfl
  declaredOnce := by
    rw [declarations_outline, List.map_append, List.map_map, List.map_map, List.nodup_append]
    refine ⟨nodup_events p.channels.inputs .input, nodup_events p.channels.outputs .output, ?_⟩
    rintro e input e' output rfl
    obtain ⟨_, _, rfl⟩ := List.mem_map.1 input
    obtain ⟨_, _, same⟩ := List.mem_map.1 output
    cases same
  declared := by
    rw [describes_outline.languages_eq]
    intro l mem e used
    rw [List.mem_singleton.1 mem] at used
    obtain ⟨type, found⟩ := Channels.declares_iff.1 (p.declared e used)
    exact List.mem_map.2 ⟨_, (describes_outline.table_iff e type).1 found, rfl⟩

end Protocol

namespace Definition

variable {name text between : String} {r : Reporter} {ps : List (String × Protocol)}

def fileText (between : String) (ps : List (String × Protocol)) : String :=
  String.join (ps.map fun p => (p.2.outline p.1).text ++ between)

theorem outcome_fileText (spaces : ∀ c ∈ between.toList, isSpace c = true)
    (differentNames : (ps.map (·.1)).Nodup)
    (expressible : ∀ p ∈ ps, IsName p.1 ∧ p.2.Expressible) :
    outcome name (fileText between ps) = .ok ps := by
  have written :
      Outline.FileText (fileText between ps).toList (ps.map fun p => p.2.outline p.1) := by
    have all : ∀ o ∈ ps.map fun p => p.2.outline p.1, o.Expressible := by
      intro o mem
      obtain ⟨p, known, rfl⟩ := List.mem_map.1 mem
      exact Protocol.expressible_outline (expressible p known).1 (expressible p known).2
    have file := Outline.fileText_of_texts spaces all
    rw [List.map_map] at file
    exact file
  have wellFormed : Outline.AllWellFormed (ps.map fun p => p.2.outline p.1) := by
    constructor
    . rw [List.map_map]
      exact differentNames
    . exact List.forall_mem_map.2 fun p _ => Protocol.wellFormed_outline
  rcases outcome_of_fileText name written with ⟨_, ps', ok, describes⟩ | ⟨ill, _⟩
  . have same : List.Forall₂ Eq ps ps' := by
      refine (List.forall₂_map_left_iff.1 describes).imp ?_
      intro p q describes
      exact Protocol.describes_outline.unique describes
    rw [List.forall₂_eq_eq_eq] at same
    rw [ok, same]
  . exact absurd wellFormed ill

/--
The text of any protocols with different names that can be written is loaded as these protocols, in
their order, and nothing about it is reported as an error.
-/
theorem load_fileText (name between : String) (colour warnings : Bool)
    (ps : List (String × Protocol)) (spaces : ∀ c ∈ between.toList, isSpace c = true)
    (differentNames : (ps.map (·.1)).Nodup)
    (expressible : ∀ p ∈ ps, IsName p.1 ∧ p.2.Expressible) :
    (load name (fileText between ps) (.new colour warnings)).1 = .ok ps ∧
      (load name (fileText between ps) (.new colour warnings)).2.errors = 0 := by
  have reachable : (Reporter.new colour warnings).Reachable := .new colour warnings
  have ok : (load name (fileText between ps) (.new colour warnings)).1 = .ok ps := by
    rw [load_eq_outcome reachable]
    exact outcome_fileText spaces differentNames expressible
  refine ⟨ok, ?_⟩
  rw [errors_load_of_ok reachable ok]
  rfl

def keywords : Protocol where
  description := "\"in\" // \\ \x7b\n; \x7d"
  channels := ⟨.ofList [("in", "T"), ("description", "protocol.language")], .ofList [("out", "T")]⟩
  language := .sequence [.input "in", .zeroOrMore (.output "out")]

theorem expressible_keywords : keywords.Expressible where
  unpadded := by
    rintro c (head | last)
    . cases head
      decide
    . cases last
      decide
  inputs := by
    intro channel type mem
    have entries : keywords.channels.inputs.entries =
        [("description", "protocol.language"), ("in", "T")] := rfl
    rw [entries] at mem
    simp only [List.mem_cons, Prod.mk.injEq, List.not_mem_nil, or_false] at mem
    rcases mem with ⟨rfl, rfl⟩ | ⟨rfl, rfl⟩
    . exact ⟨by decide, ["protocol", "language"], by simp, by decide, by decide⟩
    . exact ⟨by decide, ["T"], by simp, by decide, by decide⟩
  outputs := by
    intro channel type mem
    have entries : keywords.channels.outputs.entries = [("out", "T")] := rfl
    rw [entries] at mem
    simp only [List.mem_cons, Prod.mk.injEq, List.not_mem_nil, or_false] at mem
    obtain ⟨rfl, rfl⟩ := mem
    exact ⟨by decide, ["T"], by simp, by decide, by decide⟩
  tidy := by
    simp [keywords, Language.Each, Language.EachOf, Language.Tidy, Language.input, Language.output]
    decide

theorem load_fileText_keywords :
    (keywords.outline "protocol").text =
      "protocol protocol \x7b description \"\\\"in\\\" // \\\\ \x7b\n; \x7d\"; " ++
        "in description: protocol.language; in in: T; out out: T; " ++
        "language \x7b in:in ; out:out * \x7d \x7d" ∧
      (load "file" (fileText "\n" [("protocol", keywords), ("in", keywords)])
        (.new false false)).1 = .ok [("protocol", keywords), ("in", keywords)] := by
  refine ⟨by decide, ?_⟩
  refine (load_fileText "file" "\n" false false _ ?_ ?_ ?_).1
  . simp [isSpace]
  . decide
  . simp only [List.forall_mem_cons]
    exact ⟨⟨by decide, expressible_keywords⟩, ⟨by decide, expressible_keywords⟩, by simp⟩

end Definition

end Interaction
