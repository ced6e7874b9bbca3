import Interaction.Language.Parser
import Interaction.Protocol

/-!
This module contains definitions of protocols as they are written in files, with the places of their
parts.
-/

namespace Interaction

structure ChannelDeclaration where
  event : Event
  payload : PayloadType
  start : Nat
  stop : Nat
  deriving DecidableEq, Repr

inductive DefinitionPart where
  | description (text : List Char) (start stop : Nat)
  | channel (declaration : ChannelDeclaration)
  | language (text : LanguageText) (start stop : Nat)

structure Definition where
  name : String
  parts : List DefinitionPart
  start : Nat
  stop : Nat

namespace Definition

def descriptions (d : Definition) : List (List Char × Nat × Nat) :=
  d.parts.filterMap fun
    | .description text start stop => some (text, start, stop)
    | _ => none

/-- The last description counts; without one the description is empty. -/
def description (d : Definition) : String :=
  .ofList ((d.descriptions.getLast?.map (·.1)).getD [])

def declarations (d : Definition) : List ChannelDeclaration :=
  d.parts.filterMap fun
    | .channel declaration => some declaration
    | _ => none

def languages (d : Definition) : List (LanguageText × Nat × Nat) :=
  d.parts.filterMap fun
    | .language text start stop => some (text, start, stop)
    | _ => none

/-- The first language block counts. -/
def language? (d : Definition) : Option LanguageText :=
  d.languages.head?.map (·.1)

def table (d : Definition) (direction : Direction) : Table PayloadType :=
  .ofList <| (d.declarations.filter (·.event.direction = direction)).map fun c =>
    (c.event.channel, c.payload)

def channels (d : Definition) : Channels := ⟨d.table .input, d.table .output⟩

end Definition

end Interaction
