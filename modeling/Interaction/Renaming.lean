import Interaction.Fault
import Interaction.Text.Blank

/-!
This module contains renamings of channels between the wire and a protocol. A renaming is written as
entries `in:<wire>:<local>` and `out:<local>:<wire>` with commas between them; a channel without an
entry keeps its name.
-/

namespace Interaction

structure Renaming where
  inbound : Table String
  outbound : Table String
  deriving DecidableEq

namespace Renaming

def identity : Renaming := ⟨.empty, .empty⟩

instance : Inhabited Renaming := ⟨identity⟩

def isIdentity (r : Renaming) : Bool :=
  r.inbound.entries.isEmpty && r.outbound.entries.isEmpty

theorem isIdentity_iff {r : Renaming} : r.isIdentity = true ↔ r = identity := by
  obtain ⟨⟨inbound, _⟩, ⟨outbound, _⟩⟩ := r
  simp [isIdentity, identity, Table.empty]

def localName (r : Renaming) (topic : String) : String :=
  (r.inbound.get? topic).getD topic

def topic (r : Renaming) (channel : String) : String :=
  (r.outbound.get? channel).getD channel

def parseEntry (entry : List Char) : Except BadEntry (Direction × String × String) :=
  match (Text.splitAt ':' entry).map Text.trim with
  | [direction, source, target] =>
    if source.isEmpty || target.isEmpty then .error .emptyName
    else
      let names := (String.ofList source, String.ofList target)
      if direction = ['i', 'n'] then .ok (.input, names)
      else if direction = ['o', 'u', 't'] then .ok (.output, names)
      else .error .direction
  | _ => .error .shape

def add (r : Renaming) (direction : Direction) (source target : String) :
    Except BadEntry Renaming :=
  match direction with
  | .input =>
    if r.inbound.contains source then .error .repeated
    else .ok { r with inbound := r.inbound.insert source target }
  | .output =>
    if r.outbound.contains source then .error .repeated
    else .ok { r with outbound := r.outbound.insert source target }

def addEntry (r : Renaming) (entry : List Char) : Except Fault Renaming :=
  match parseEntry entry with
  | .error problem => .error (.badRenaming (String.ofList entry) problem)
  | .ok (direction, source, target) =>
    (r.add direction source target).mapError (.badRenaming (String.ofList entry))

def entries (text : List Char) : List (List Char) :=
  ((Text.splitAt ',' text).map Text.trim).filter (!·.isEmpty)

def parse (text : String) : Except Fault Renaming :=
  (entries text.toList).foldlM addEntry identity

end Renaming

end Interaction
