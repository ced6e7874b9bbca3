import Interaction.Definition.Parser
import Interaction.Proofs.Language.Grammar
import Interaction.Proofs.Parsing.Relation

/-!
This module contains the grammar of definition files: how a text describes protocols, and which
descriptions are well formed.
-/

namespace Interaction

open Interaction.Parser

inductive OutlinePart where
  | description (text : String)
  | channel (event : Event) (payload : PayloadType)
  | language (l : Language)

structure Outline where
  name : String
  parts : List OutlinePart

/-- The text of a description between quotes: each backslash stands before another character. -/
inductive Quotable : List Char → Prop where
  | nil : Quotable []
  | plain {x : Char} {text : List Char} :
    x ≠ '"' → x ≠ '\\' → Quotable text → Quotable (x :: text)
  | escaped {x : Char} {text : List Char} : Quotable text → Quotable ('\\' :: x :: text)

def Definition.meaning (quoted : String) : String :=
  String.ofList (unescape (Text.trim quoted.toList))

def IsPayloadType (s : PayloadType) : Prop :=
  ∃ names : List String, names ≠ [] ∧ (∀ name ∈ names, IsName name) ∧ s = ".".intercalate names

namespace OutlinePart

def description? : OutlinePart → Option String
  | .description text => some text
  | _ => none

def channel? : OutlinePart → Option (Event × PayloadType)
  | .channel e type => some (e, type)
  | _ => none

def language? : OutlinePart → Option Language
  | .language l => some l
  | _ => none

def keyword : OutlinePart → String
  | .description _ => "description"
  | .channel e _ => e.direction.word
  | .language _ => "language"

inductive Written : List Char → OutlinePart → List Char → Prop where
  | description {quoted : String} {afterWord afterQuote rest : List Char} :
    Skips afterWord ('"' :: (quoted.toList ++ '"' :: afterQuote)) → Quotable quoted.toList →
      Skips afterQuote (';' :: rest) →
      Written ("description".toList ++ afterWord) (.description (Definition.meaning quoted)) rest
  | channel {e : Event} {type : PayloadType}
    {afterWord afterName afterColon afterType rest : List Char} :
    NameEnds afterWord → Skips afterWord (e.channel.toList ++ afterName) → IsName e.channel →
      Skips afterName (':' :: afterColon) → Skips afterColon (type.toList ++ afterType) →
      IsPayloadType type → Skips afterType (';' :: rest) →
      Written (e.direction.word.toList ++ afterWord) (.channel e type) rest
  | language {ts : List Token} {l : Language} {afterWord afterBrace inner rest : List Char} :
    Skips afterWord ('\x7b' :: afterBrace) → Skips afterBrace inner →
      Spelling ts inner ('\x7d' :: rest) → Derives (.joined .choice) ts [l] →
      Written ("language".toList ++ afterWord) (.language l) rest

end OutlinePart

namespace Outline

inductive Written : List Char → Outline → List Char → Prop where
  | protocol {o : Outline} {afterWord afterName afterBrace inner rest : List Char} :
    NameEnds afterWord → Skips afterWord (o.name.toList ++ afterName) → IsName o.name →
      Skips afterName ('\x7b' :: afterBrace) → Skips afterBrace inner →
      Chain (WithLayout OutlinePart.Written) inner o.parts ('\x7d' :: rest) →
      Written ("protocol".toList ++ afterWord) o rest

def FileText (text : List Char) (outlines : List Outline) : Prop :=
  ∃ start, Skips text start ∧ Chain (WithLayout Written) start outlines []

def descriptions (o : Outline) : List String := o.parts.filterMap (·.description?)

def declarations (o : Outline) : List (Event × PayloadType) := o.parts.filterMap (·.channel?)

def languages (o : Outline) : List Language := o.parts.filterMap (·.language?)

/-- Whether a definition says everything once, and declares the channels of its language. -/
structure WellFormed (o : Outline) : Prop where
  describedOnce : o.descriptions.length ≤ 1
  oneLanguage : o.languages.length = 1
  declaredOnce : (o.declarations.map (·.1)).Nodup
  declared : ∀ l ∈ o.languages, ∀ e ∈ l.events, e ∈ o.declarations.map (·.1)

structure AllWellFormed (os : List Outline) : Prop where
  differentNames : (os.map (·.name)).Nodup
  each : ∀ o ∈ os, o.WellFormed

end Outline

namespace DefinitionPart

def outline : DefinitionPart → OutlinePart
  | .description text _ _ => .description (.ofList text)
  | .channel c => .channel c.event c.payload
  | .language text _ _ => .language text.language

end DefinitionPart

namespace Definition

def outline (d : Definition) : Outline := ⟨d.name, d.parts.map (·.outline)⟩

end Definition

variable {t rest tail : List Char}

namespace OutlinePart

variable {p : OutlinePart}

def initial : OutlinePart → Char
  | .description _ => 'd'
  | .channel e _ => if e.direction = .input then 'i' else 'o'
  | .language _ => 'l'

theorem exists_toList_keyword (p : OutlinePart) : ∃ tail, p.keyword.toList = p.initial :: tail := by
  cases p with
  | description =>
    rw [keyword]
    exact ⟨"escription".toList, rfl⟩
  | channel e =>
    rw [keyword, initial]
    cases e.direction
    . exact ⟨['n'], by decide⟩
    . exact ⟨['u', 't'], by decide⟩
  | language =>
    rw [keyword]
    exact ⟨"anguage".toList, rfl⟩

theorem initial_mem (p : OutlinePart) : p.initial ∈ ['d', 'i', 'o', 'l'] := by
  cases p with
  | channel e =>
    rw [initial]
    cases e.direction <;> decide
  | _ => simp [initial]

theorem Written.eq_append (h : Written t p rest) :
    ∃ tail, t = p.keyword.toList ++ tail ∧ rest.length ≤ tail.length := by
  cases h with
  | description skips _ skips' =>
    refine ⟨_, rfl, ?_⟩
    have := skips.suffix.length_le
    have := skips'.suffix.length_le
    simp only [List.length_append, List.length_cons] at *
    omega
  | channel _ skips _ skips₁ skips₂ _ skips₃ =>
    refine ⟨_, rfl, ?_⟩
    have := skips.suffix.length_le
    have := skips₁.suffix.length_le
    have := skips₂.suffix.length_le
    have := skips₃.suffix.length_le
    simp only [List.length_append, List.length_cons] at *
    omega
  | language skips skips₁ spelling _ =>
    refine ⟨_, rfl, ?_⟩
    have := skips.suffix.length_le
    have := skips₁.suffix.length_le
    have := spelling.length_le
    simp only [List.length_cons] at *
    omega

theorem Written.eq_cons (h : Written t p rest) :
    ∃ tail, t = p.initial :: tail ∧ rest.length ≤ tail.length := by
  obtain ⟨tail, rfl, le⟩ := h.eq_append
  obtain ⟨word, eq⟩ := p.exists_toList_keyword
  refine ⟨word ++ tail, congrArg (· ++ tail) eq, ?_⟩
  rw [List.length_append]
  omega

theorem Written.initial_eq {p' : OutlinePart} {rest' : List Char} (h : Written t p rest)
    (h' : Written t p' rest') : p.initial = p'.initial := by
  obtain ⟨tail, rfl, _⟩ := h.eq_cons
  obtain ⟨tail', eq, _⟩ := h'.eq_cons
  exact (List.cons.inj eq).1

theorem Written.settled (h : Written t p rest) : Settled t := by
  obtain ⟨tail, rfl, _⟩ := h.eq_cons
  exact settled_cons_of_mem (by decide) p.initial_mem

theorem Written.length_lt (h : Written t p rest) : rest.length < t.length := by
  obtain ⟨tail, rfl, le⟩ := h.eq_cons
  exact Nat.lt_succ_of_le le

theorem not_written_of_brace (p : OutlinePart) (rest : List Char) :
    ¬Written ('\x7d' :: t) p rest := by
  intro written
  obtain ⟨tail, eq, _⟩ := written.eq_cons
  have mem := p.initial_mem
  rw [← (List.cons.inj eq).1] at mem
  exact absurd mem (by decide)

end OutlinePart

namespace Outline

variable {o : Outline}

theorem Written.settled (h : Written t o rest) : Settled t := by
  cases h
  exact settled_cons (by decide) (by decide)

theorem Written.length_lt (h : Written t o rest) : rest.length < t.length := by
  cases h with
  | protocol _ skips _ skips₁ skips₂ chain =>
    have := skips.suffix.length_le
    have := skips₁.suffix.length_le
    have := skips₂.suffix.length_le
    have := chain.length_le fun _ _ _ step =>
      Nat.le_of_lt (step.length_lt fun _ _ _ => OutlinePart.Written.length_lt)
    have nonempty : 0 < "protocol".toList.length := by decide
    simp only [List.length_append, List.length_cons] at *
    omega

end Outline

end Interaction
