/-!
This module contains the events a protocol talks about: a message seen on an input or an output
channel of a node. Events are ordered, all inputs before all outputs and then by channel name, so
that sets of events have one listing.
-/

namespace Interaction

inductive Direction where
  | input
  | output
  deriving DecidableEq, Repr

namespace Direction

def word : Direction → String
  | .input => "in"
  | .output => "out"

def opposite : Direction → Direction
  | .input => .output
  | .output => .input

def rank : Direction → Nat
  | .input => 0
  | .output => 1

end Direction

structure Event where
  direction : Direction
  channel : String
  deriving DecidableEq, Repr

namespace Event

def input (channel : String) : Event := ⟨.input, channel⟩

def output (channel : String) : Event := ⟨.output, channel⟩

def label (e : Event) : String :=
  e.direction.word ++ ":" ++ e.channel

def channelText (e : Event) : String :=
  e.direction.word ++ "put channel `" ++ e.channel ++ "`"

def describe (e : Event) : String :=
  e.direction.word ++ "put `" ++ e.channel ++ "`"

instance : LT Event where
  lt a b := a.direction.rank < b.direction.rank ∨
    (a.direction = b.direction ∧ a.channel < b.channel)

instance (a b : Event) : Decidable (a < b) :=
  inferInstanceAs (Decidable (_ ∨ (_ ∧ _)))

def insertInto (e : Event) : List Event → List Event
  | [] => [e]
  | x :: rest =>
    if e < x then e :: x :: rest
    else if e = x then x :: rest
    else x :: insertInto e rest

def ascending (events : List Event) : List Event :=
  events.foldr insertInto []

end Event

end Interaction
