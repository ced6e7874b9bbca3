import Interaction.Language.Parser
import Interaction.Proofs.Parsing.Layout

/-!
This module contains the grammar of languages: the tokens, how tokens with layout between them make
up a text, and which languages the tokens stand for.
-/

namespace Interaction

inductive Sign where
  | star
  | plus
  | question
  deriving DecidableEq, Repr

namespace Sign

def text : Sign → String
  | .star => "*"
  | .plus => "+"
  | .question => "?"

def expectation : Sign → Expectation
  | .star => .zeroOrMore
  | .plus => .oneOrMore
  | .question => .optional

def apply : Sign → Language → Language
  | .star => .zeroOrMore
  | .plus => .oneOrMore
  | .question => .optional

end Sign

inductive Token where
  | event (e : Event)
  | opening
  | closing
  | semicolon
  | bar
  | sign (s : Sign)
  deriving DecidableEq, Repr

def Token.text : Token → String
  | .event e => e.label
  | .opening => "("
  | .closing => ")"
  | .semicolon => ";"
  | .bar => "|"
  | .sign s => s.text

/-- Whether a text begins with tokens, each with some layout after it, and the text after them. -/
inductive Spelling : List Token → List Char → List Char → Prop where
  | nil (text : List Char) : Spelling [] text text
  | cons {t : Token} {ts : List Token} {text mid rest : List Char} :
    Skips text mid → Spelling ts mid rest → Spelling (t :: ts) (t.text.toList ++ text) rest

inductive Joint where
  | sequence
  | choice
  deriving DecidableEq, Repr

namespace Joint

def separator : Joint → Token
  | .sequence => .semicolon
  | .choice => .bar

def combine : Joint → List Language → Language
  | .sequence => .sequence
  | .choice => .either

def join (k : Joint) : List Language → Language
  | [l] => l
  | ls => k.combine ls

end Joint

inductive Category where
  | operand
  | item
  | joined (k : Joint)
  | others (k : Joint)
  deriving DecidableEq, Repr

def Joint.element : Joint → Category
  | .sequence => .item
  | .choice => .joined .sequence

/-- Whether tokens belong to a category, and the languages they stand for. -/
inductive Derives : Category → List Token → List Language → Prop where
  | event {e : Event} : IsName e.channel → Derives .operand [.event e] [.event e]
  | group {ts : List Token} {l : Language} :
    Derives (.joined .choice) ts [l] → Derives .operand (.opening :: (ts ++ [.closing])) [l]
  | plain {ts : List Token} {l : Language} : Derives .operand ts [l] → Derives .item ts [l]
  | signed {ts : List Token} {l : Language} (s : Sign) :
    Derives .operand ts [l] → Derives .item (ts ++ [.sign s]) [s.apply l]
  | joined {k : Joint} {ts us : List Token} {l : Language} {ls : List Language} :
    Derives k.element ts [l] → Derives (.others k) us ls →
      Derives (.joined k) (ts ++ us) [k.join (l :: ls)]
  | none (k : Joint) : Derives (.others k) [] []
  | another {k : Joint} {ts us : List Token} {l : Language} {ls : List Language} :
    Derives k.element ts [l] → Derives (.others k) us ls →
      Derives (.others k) (k.separator :: (ts ++ us)) (l :: ls)

variable {a b rest : List Char} {ts us : List Token} {t : Token} {l : Language}
variable {ls : List Language} {k : Joint}

namespace Event

theorem toList_label (e : Event) :
    e.label.toList = (e.direction.word ++ ":").toList ++ e.channel.toList := by
  unfold label
  exact String.toList_append

end Event

namespace Token

theorem exists_toList_text (t : Token) :
    ∃ x rest, t.text.toList = x :: rest ∧ Parser.isSpace x = false ∧ x ≠ '/' := by
  cases t with
  | event e =>
    rw [text, Event.toList_label]
    cases e.direction
    . exact ⟨'i', 'n' :: ':' :: e.channel.toList, rfl, by decide⟩
    . exact ⟨'o', 'u' :: 't' :: ':' :: e.channel.toList, rfl, by decide⟩
  | sign s => cases s <;> exact ⟨_, _, rfl, by decide⟩
  | _ => exact ⟨_, _, rfl, by decide⟩

theorem settled_append (t : Token) : Settled (t.text.toList ++ rest) := by
  obtain ⟨x, text, eq, noSpace, ne⟩ := t.exists_toList_text
  rw [eq]
  exact settled_cons noSpace ne

end Token

namespace Spelling

theorem append (first : Spelling ts a b) (last : Spelling us b rest) :
    Spelling (ts ++ us) a rest := by
  induction first with
  | nil => exact last
  | cons skips _ ih => exact .cons skips (ih last)

theorem split (h : Spelling (ts ++ us) a rest) : ∃ b, Spelling ts a b ∧ Spelling us b rest := by
  induction ts generalizing a with
  | nil => exact ⟨a, .nil a, h⟩
  | cons t ts ih =>
    cases h with
    | cons skips inner =>
      obtain ⟨b, first, last⟩ := ih inner
      exact ⟨b, .cons skips first, last⟩

theorem token (t : Token) : Spelling [t] (t.text.toList ++ rest) rest :=
  .cons (.done rest) (.nil rest)

theorem skips (h : Spelling ts a b) (ne : ts ≠ []) (last : Skips b rest) :
    Spelling ts a rest := by
  induction h with
  | nil => exact absurd rfl ne
  | @cons t ts text mid b before inner ih =>
    match ts with
    | [] =>
      cases inner
      exact .cons (before.trans last) (.nil rest)
    | u :: us => exact .cons before (ih (List.cons_ne_nil u us) last)

theorem settled (h : Spelling ts a rest) (last : Settled rest) : Settled a := by
  cases h with
  | nil => exact last
  | cons => exact Token.settled_append _

theorem length_le (h : Spelling ts a rest) : rest.length ≤ a.length := by
  induction h with
  | nil => exact Nat.le_refl _
  | cons skips _ ih =>
    have := skips.suffix.length_le
    rw [List.length_append]
    omega

theorem length_lt (h : Spelling ts a rest) (ne : ts ≠ []) : rest.length < a.length := by
  cases h with
  | nil => exact absurd rfl ne
  | @cons t ts text mid _ skips inner =>
    obtain ⟨x, tail, eq, _⟩ := t.exists_toList_text
    have := skips.suffix.length_le
    have := inner.length_le
    rw [eq, List.length_append, List.length_cons]
    omega

end Spelling

namespace Derives

theorem tokens_ne_nil {i : Category} (h : Derives i ts ls) (one : ∀ k, i ≠ .others k) :
    ts ≠ [] := by
  induction h with
  | event => simp
  | group => simp
  | plain _ ih => exact ih (by simp)
  | signed => simp
  | @joined k ts us l ls _ _ ih =>
    have ne : ts ≠ [] := by
      apply ih
      cases k <;> simp [Joint.element]
    simp [ne]
  | none k => exact absurd rfl (one k)
  | another => simp

end Derives

end Interaction
