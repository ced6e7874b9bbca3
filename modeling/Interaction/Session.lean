import Interaction.Automaton.Basic

/-!
This module contains sessions: a session follows a series of events on an automaton, says after each
one whether the series is complete, may be continued or is illegal, and which events may come next.
-/

namespace Interaction

inductive Verdict where
  | enough
  | needMore
  | unexpected
  deriving DecidableEq, Repr

namespace Verdict

def unexpectedReason : String := "no continuation possible"

def describe : Verdict → String
  | .enough => "enough"
  | .needMore => "need more"
  | .unexpected => "unexpected: " ++ unexpectedReason

end Verdict

structure Session where
  automaton : Automaton
  active : List Nat
  deriving DecidableEq, Repr

namespace Session

/--
The nodes a session rests at when it has reached the given nodes: all that silent edges lead to,
without those that can only be left silently, unless these lie on a silent cycle.
-/
def settle (a : Automaton) (reached : List Nat) : List Nat :=
  let closure := a.closure reached
  (List.range a.nodes).filter fun node =>
    closure[node]?.getD false && (!a.isPassage node || a.onSilentCycle node)

def new (a : Automaton) : Session :=
  ⟨a, settle a [a.start]⟩

def push (s : Session) (e : Event) : Session :=
  { s with active := settle s.automaton (s.active.flatMap (s.automaton.targetsOf e)) }

def verdict (s : Session) : Verdict :=
  if s.active.isEmpty then .unexpected
  else if s.active.contains s.automaton.accept then .enough
  else .needMore

def expected (s : Session) : List Event :=
  Event.ascending (s.active.flatMap s.automaton.eventsFrom)

end Session

end Interaction
