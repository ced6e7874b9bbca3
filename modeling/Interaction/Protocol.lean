import Interaction.Automaton.Compile
import Interaction.Fault
import Interaction.Language.Printer
import Interaction.Table

/-!
This module contains protocols: the channels of a node with the types of their payloads, and the
language that orders the events on them.
-/

namespace Interaction

abbrev PayloadType : Type := String

structure Channels where
  inputs : Table PayloadType
  outputs : Table PayloadType
  deriving DecidableEq

namespace Channels

def table (c : Channels) : Direction → Table PayloadType
  | .input => c.inputs
  | .output => c.outputs

def declares (c : Channels) (e : Event) : Bool :=
  (c.table e.direction).contains e.channel

end Channels

structure Protocol where
  description : String
  channels : Channels
  language : Language
  automaton : Automaton := Automaton.compile language
  declared : ∀ e ∈ language.events, channels.declares e = true := by decide
  automaton_eq : automaton = Automaton.compile language := by rfl

namespace Protocol

/--
Makes a protocol, unless its language mentions an undeclared channel; the first such channel from
left to right is reported.
-/
def new (description : String) (channels : Channels) (language : Language) :
    Except Fault Protocol :=
  match h : language.events.find? (!channels.declares ·) with
  | some e => .error (.undeclaredChannel e)
  | none =>
    .ok {
      description, channels, language
      declared := by simpa using h }

def newSession (p : Protocol) : Session := .new p.automaton

def resolve (p : Protocol) (e : Event) : Except Fault PayloadType :=
  let table := p.channels.table e.direction
  match table.get? e.channel with
  | some type => .ok type
  | none => .error (.unknownChannel e table.keys)

def tableToJson (table : Table PayloadType) : Json :=
  .object (table.entries.map fun (channel, type) => (channel, .string type))

def describe (p : Protocol) : Json :=
  .object [
    ("description", .string p.description),
    ("inputs", tableToJson p.channels.inputs),
    ("outputs", tableToJson p.channels.outputs),
    ("language", .string p.language.render)]

end Protocol

end Interaction
