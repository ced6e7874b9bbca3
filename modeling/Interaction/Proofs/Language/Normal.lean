import Interaction.Automaton.Compile
import Interaction.Proofs.Language.Grammar
import Interaction.Proofs.Language.Shape

/-!
This module contains the languages that texts can express, and their normal forms: a sequence or a
choice of one element becomes that element, which changes nothing in the automaton.
-/

namespace Interaction

namespace Language

/-- Whether a language can be written down: events have names, and nothing joins no languages. -/
def Writable : Language → Prop
  | .event e => IsName e.channel
  | .sequence parts => parts ≠ []
  | .either branches => branches ≠ []
  | _ => True

/-- Whether a language is like one that was read: events have names, and joints join something. -/
def Tidy : Language → Prop
  | .event e => IsName e.channel
  | .sequence parts => 2 ≤ parts.length
  | .either branches => 2 ≤ branches.length
  | _ => True

theorem Tidy.writable {l : Language} (h : l.Tidy) : l.Writable := by
  cases l with
  | event => exact h
  | sequence => exact List.ne_nil_of_length_pos (Nat.lt_of_lt_of_le Nat.zero_lt_two h)
  | either => exact List.ne_nil_of_length_pos (Nat.lt_of_lt_of_le Nat.zero_lt_two h)
  | _ => exact True.intro

mutual

def normalize : Language → Language
  | .event e => .event e
  | .sequence parts => Joint.sequence.join (normalizeAll parts)
  | .either branches => Joint.choice.join (normalizeAll branches)
  | .optional body => .optional (normalize body)
  | .zeroOrMore body => .zeroOrMore (normalize body)
  | .oneOrMore body => .oneOrMore (normalize body)

def normalizeAll : List Language → List Language
  | [] => []
  | l :: rest => normalize l :: normalizeAll rest

end

theorem join_of_two_le {k : Joint} {ls : List Language} (h : 2 ≤ ls.length) :
    k.join ls = k.combine ls := by
  match ls with
  | [] => rfl
  | [l] => simp at h
  | _ :: _ :: _ => rfl

mutual

theorem normalize_of_tidy {l : Language} (h : l.Each Tidy) : l.normalize = l := by
  cases l with
  | event e => rfl
  | sequence parts =>
    unfold normalize
    rw [normalizeAll_of_tidy h.2, join_of_two_le h.1]
    rfl
  | either branches =>
    unfold normalize
    rw [normalizeAll_of_tidy h.2, join_of_two_le h.1]
    rfl
  | optional body =>
    unfold normalize
    rw [normalize_of_tidy h.2]
  | zeroOrMore body =>
    unfold normalize
    rw [normalize_of_tidy h.2]
  | oneOrMore body =>
    unfold normalize
    rw [normalize_of_tidy h.2]

theorem normalizeAll_of_tidy {ls : List Language} (h : EachOf Tidy ls) : normalizeAll ls = ls := by
  cases ls with
  | nil => rfl
  | cons l rest =>
    unfold normalizeAll
    rw [normalize_of_tidy h.1, normalizeAll_of_tidy h.2]

end

end Language

namespace Automaton

theorem place_join_sequence {ls : List Language} {source target next : Nat} :
    place (Joint.sequence.join ls) source target next = placeParts ls source target next := by
  cases ls with
  | nil => unfold Joint.join Joint.combine place; rfl
  | cons l rest =>
    cases rest with
    | nil => unfold Joint.join placeParts; rfl
    | cons => unfold Joint.join Joint.combine; rw [place]

theorem place_join_choice {ls : List Language} {source target next : Nat} :
    place (Joint.choice.join ls) source target next = placeBranches ls source target next := by
  cases ls with
  | nil => unfold Joint.join Joint.combine; rw [place]
  | cons l rest =>
    cases rest with
    | nil => simp [Joint.join, placeBranches, Fragment.andThen]
    | cons => unfold Joint.join Joint.combine; rw [place]

mutual

theorem place_normalize (l : Language) (source target next : Nat) :
    place l.normalize source target next = place l source target next := by
  cases l with
  | event e => rfl
  | sequence parts =>
    unfold Language.normalize
    rw [place_join_sequence, placeParts_normalizeAll, place]
  | either branches =>
    unfold Language.normalize
    rw [place_join_choice, placeBranches_normalizeAll, place]
  | optional body =>
    unfold Language.normalize place Fragment.andThen
    simp only [place_normalize body]
  | zeroOrMore body =>
    unfold Language.normalize place Fragment.andThen
    simp only [place_normalize body]
  | oneOrMore body =>
    unfold Language.normalize place Fragment.andThen
    simp only [place_normalize body]

theorem placeParts_normalizeAll (parts : List Language) (source target next : Nat) :
    placeParts (Language.normalizeAll parts) source target next =
      placeParts parts source target next := by
  match parts with
  | [] => rfl
  | [l] =>
    simp only [Language.normalizeAll, placeParts]
    rw [place_normalize l]
  | l :: m :: rest =>
    have others := placeParts_normalizeAll (m :: rest)
    simp only [Language.normalizeAll] at others
    simp only [Language.normalizeAll, placeParts, Fragment.andThen]
    rw [place_normalize l, others]

theorem placeBranches_normalizeAll (branches : List Language) (source target next : Nat) :
    placeBranches (Language.normalizeAll branches) source target next =
      placeBranches branches source target next := by
  cases branches with
  | nil => rfl
  | cons l rest =>
    unfold Language.normalizeAll placeBranches Fragment.andThen
    rw [place_normalize l, placeBranches_normalizeAll rest]

end

theorem compile_normalize (l : Language) : compile l.normalize = compile l := by
  unfold compile
  rw [place_normalize]

end Automaton

end Interaction
