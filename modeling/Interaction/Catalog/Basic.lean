import Interaction.Definition.Load

/-!
This module contains catalogs of protocols by name.
-/

namespace Interaction

structure Catalog where
  protocols : Table Protocol

namespace Catalog

def empty : Catalog := ⟨.empty⟩

def names (c : Catalog) : List String := c.protocols.keys

def size (c : Catalog) : Nat := c.protocols.size

def get (c : Catalog) (name : String) : Except Fault Protocol :=
  match c.protocols.get? name with
  | some protocol => .ok protocol
  | none => .error (.unknownProtocol name c.names)

def insert (c : Catalog) (name : String) (protocol : Protocol) : Except Fault Catalog :=
  if c.protocols.contains name then .error (.duplicateProtocol name)
  else .ok ⟨c.protocols.insert name protocol⟩

/-- Adds protocols one after the other, and stops at the first name that is not new. -/
def insertAll (c : Catalog) : List (String × Protocol) → Except Fault Unit × Catalog
  | [] => (.ok (), c)
  | (name, protocol) :: rest =>
    match c.insert name protocol with
    | .error fault => (.error fault, c)
    | .ok c => c.insertAll rest

def loadFile (c : Catalog) (name : String) (content : Except Unreadable String) (r : Reporter) :
    Except Fault (List String) × Catalog × Reporter :=
  match Definition.loadFile name content r with
  | (.error fault, r) => (.error fault, c, r)
  | (.ok protocols, r) =>
    match c.insertAll protocols with
    | (.ok (), c) => (.ok (protocols.map (·.1)), c, r)
    | (.error fault, c) => (.error fault, c, r.addGeneral .error fault.message)

end Catalog

end Interaction
