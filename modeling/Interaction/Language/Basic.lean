import Interaction.Event

/-!
This module contains the languages of interaction: which series of events a node and its
surroundings may exchange.
-/

namespace Interaction

inductive Language where
  | event (e : Event)
  | sequence (parts : List Language)
  | either (branches : List Language)
  | optional (body : Language)
  | zeroOrMore (body : Language)
  | oneOrMore (body : Language)
  deriving Repr

namespace Language

def input (channel : String) : Language := .event (.input channel)

def output (channel : String) : Language := .event (.output channel)

def isEvent : Language → Bool
  | .event _ => true
  | _ => false

mutual

def events : Language → List Event
  | .event e => [e]
  | .sequence parts => eventsOfAll parts
  | .either branches => eventsOfAll branches
  | .optional body => events body
  | .zeroOrMore body => events body
  | .oneOrMore body => events body

def eventsOfAll : List Language → List Event
  | [] => []
  | l :: rest => events l ++ eventsOfAll rest

end

mutual

def same : Language → Language → Bool
  | .event a, .event b => a == b
  | .sequence as, .sequence bs => allSame as bs
  | .either as, .either bs => allSame as bs
  | .optional a, .optional b => same a b
  | .zeroOrMore a, .zeroOrMore b => same a b
  | .oneOrMore a, .oneOrMore b => same a b
  | _, _ => false

def allSame : List Language → List Language → Bool
  | [], [] => true
  | a :: as, b :: bs => same a b && allSame as bs
  | _, _ => false

end

mutual

theorem same_iff (a b : Language) : same a b = true ↔ a = b := by
  cases a <;> cases b <;> simp [same]
  case sequence as bs => exact allSame_iff as bs
  case either as bs => exact allSame_iff as bs
  case optional a b => exact same_iff a b
  case zeroOrMore a b => exact same_iff a b
  case oneOrMore a b => exact same_iff a b

theorem allSame_iff (as bs : List Language) : allSame as bs = true ↔ as = bs := by
  cases as <;> cases bs <;> simp [allSame]
  case cons a as b bs => rw [same_iff a b, allSame_iff as bs]

end

instance : DecidableEq Language := fun a b =>
  decidable_of_iff (same a b = true) (same_iff a b)

end Language

end Interaction
