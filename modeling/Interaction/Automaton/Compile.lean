import Interaction.Automaton.Basic
import Interaction.Language.Basic

/-!
This module contains the automaton of a language. Every language is placed between two given nodes:
the parts of a sequence follow each other over fresh nodes, all branches of a choice share both
nodes, and a repetition loops at its second node.
-/

namespace Interaction

namespace Automaton

structure Fragment where
  edges : List Edge
  next : Nat
  deriving DecidableEq, Repr

namespace Fragment

def edge (source : Nat) (label : Option Event) (target next : Nat) : Fragment :=
  ⟨[⟨source, label, target⟩], next⟩

def andThen (first : Fragment) (second : Nat → Fragment) : Fragment :=
  let last := second first.next
  ⟨first.edges ++ last.edges, last.next⟩

end Fragment

mutual

/-- Places a language between two nodes. Fresh nodes are numbered from `next`. -/
def place (l : Language) (source target next : Nat) : Fragment :=
  match l with
  | .event e => .edge source (some e) target next
  | .sequence parts => placeParts parts source target next
  | .either branches => placeBranches branches source target next
  | .optional body =>
    (Fragment.edge source none target next).andThen (place body source target)
  | .zeroOrMore body =>
    (Fragment.edge source none target next).andThen (place body target target)
  | .oneOrMore body =>
    (place body source target next).andThen (place body target target)

def placeParts (parts : List Language) (source target next : Nat) : Fragment :=
  match parts with
  | [] => .edge source none target next
  | [l] => place l source target next
  | l :: rest => (place l source next (next + 1)).andThen (placeParts rest next target)

def placeBranches (branches : List Language) (source target next : Nat) : Fragment :=
  match branches with
  | [] => ⟨[], next⟩
  | l :: rest => (place l source target next).andThen (placeBranches rest source target)

end

def compile (l : Language) : Automaton :=
  let fragment := place l 0 1 2
  .ofEdges fragment.next fragment.edges

end Automaton

end Interaction
