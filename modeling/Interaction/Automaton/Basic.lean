import Interaction.Event

/-!
This module contains automata over events. Nodes are numbered; an edge without a label is silent,
it is followed without an event.
-/

namespace Interaction

structure Edge where
  source : Nat
  label : Option Event
  target : Nat
  deriving DecidableEq, Repr

structure Exit where
  label : Option Event
  target : Nat
  deriving DecidableEq, Repr

def Edge.exit (e : Edge) : Exit := ⟨e.label, e.target⟩

/--
An automaton holds the exits of each node, in the order in which they were added. Sessions begin at
node 0, and are complete at node 1.
-/
structure Automaton where
  exits : Array (List Exit)
  deriving DecidableEq, Repr

namespace Automaton

def nodes (a : Automaton) : Nat := a.exits.size

def start (_ : Automaton) : Nat := 0

def accept (_ : Automaton) : Nat := 1

def exitsFrom (a : Automaton) (node : Nat) : List Exit :=
  a.exits[node]?.getD []

def addEdge (e : Edge) (exits : Array (List Exit)) : Array (List Exit) :=
  exits.modify e.source (e.exit :: ·)

def ofEdges (nodes : Nat) (edges : List Edge) : Automaton :=
  ⟨edges.foldr addEdge (Array.replicate nodes [])⟩

@[simp]
theorem nodes_ofEdges (nodes : Nat) (edges : List Edge) : (ofEdges nodes edges).nodes = nodes := by
  simp only [ofEdges, Automaton.nodes]
  induction edges with
  | nil => simp
  | cons e rest ih => simpa [addEdge] using ih

theorem exitsFrom_ofEdges {nodes node : Nat} (h : node < nodes) (edges : List Edge) :
    (ofEdges nodes edges).exitsFrom node = (edges.filter (·.source == node)).map Edge.exit := by
  have size := nodes_ofEdges nodes edges
  induction edges with
  | nil => simp [ofEdges, exitsFrom, h]
  | cons e rest ih =>
    have sizeRest := nodes_ofEdges nodes rest
    simp only [ofEdges, exitsFrom, Automaton.nodes, List.foldr_cons, addEdge] at *
    specialize ih sizeRest
    rw [Array.getElem?_eq_getElem (by omega)] at ih ⊢
    by_cases same : e.source = node <;> simp_all [Array.getElem_modify]

def silentTargets (a : Automaton) (node : Nat) : List Nat :=
  ((a.exitsFrom node).filter (·.label.isNone)).map (·.target)

def eventsFrom (a : Automaton) (node : Nat) : List Event :=
  (a.exitsFrom node).filterMap (·.label)

def targetsOf (a : Automaton) (e : Event) (node : Nat) : List Nat :=
  ((a.exitsFrom node).filter (·.label == some e)).map (·.target)

structure Walk where
  todo : List Nat
  marks : Array Bool
  deriving DecidableEq, Repr

namespace Walk

def size (w : Walk) : Nat := w.todo.length + w.marks.count false

def find (w : Walk) (node : Nat) : Walk :=
  if h : ∃ bound : node < w.marks.size, w.marks[node] = false then
    ⟨node :: w.todo, w.marks.set node true h.1⟩
  else w

def findAll (w : Walk) (nodes : List Nat) : Walk := nodes.foldl find w

@[simp]
theorem size_find (w : Walk) (node : Nat) : (w.find node).size = w.size := by
  unfold find
  split
  . next fresh =>
    have positive : 0 < w.marks.count false :=
      Array.count_pos_iff.2 (fresh.2 ▸ Array.getElem_mem fresh.1)
    have fewer : (w.marks.set node true fresh.1).count false = w.marks.count false - 1 := by
      rw [Array.count_set, fresh.2]
      rfl
    simp only [size, List.length_cons, fewer]
    omega
  . rfl

@[simp]
theorem size_findAll (w : Walk) (nodes : List Nat) : (w.findAll nodes).size = w.size := by
  induction nodes generalizing w with
  | nil => rfl
  | cons node nodes ih => exact (ih (w.find node)).trans (size_find w node)

end Walk

def visit (a : Automaton) (node : Nat) (todo : List Nat) (marks : Array Bool) : Walk :=
  Walk.findAll ⟨todo, marks⟩ (a.silentTargets node)

theorem size_visit_lt (a : Automaton) (node : Nat) (todo : List Nat) (marks : Array Bool) :
    (a.visit node todo marks).size < Walk.size ⟨node :: todo, marks⟩ := by
  unfold visit
  rw [Walk.size_findAll]
  simp only [Walk.size, List.length_cons]
  omega

def explore (a : Automaton) : Walk → Array Bool
  | ⟨[], marks⟩ => marks
  | ⟨node :: todo, marks⟩ => a.explore (a.visit node todo marks)
termination_by w => w.size
decreasing_by exact size_visit_lt a node todo marks

def walkFrom (a : Automaton) (nodes : List Nat) : Walk :=
  Walk.findAll ⟨[], Array.replicate a.nodes false⟩ nodes

def closure (a : Automaton) (nodes : List Nat) : Array Bool := a.explore (a.walkFrom nodes)

def isPassage (a : Automaton) (node : Nat) : Bool :=
  let exits := a.exitsFrom node
  !exits.isEmpty && exits.all (·.label.isNone)

def comesTo (a : Automaton) (node : Nat) : Walk → Bool
  | ⟨[], _⟩ => false
  | ⟨next :: todo, marks⟩ =>
    if (a.silentTargets next).contains node then true
    else a.comesTo node (a.visit next todo marks)
termination_by w => w.size
decreasing_by exact size_visit_lt a next todo marks

def onSilentCycle (a : Automaton) (node : Nat) : Bool :=
  a.comesTo node ⟨[node], Array.replicate a.nodes false⟩

def nodeName (a : Automaton) (node : Nat) : String :=
  if node = a.start then "start"
  else if node = a.accept then "accept"
  else "S" ++ toString node

def labelText : Option Event → String
  | none => "ε"
  | some e => e.label

def toDot (a : Automaton) : String :=
  let numbers := List.range a.nodes
  let shape (node : Nat) := if node = a.accept then "doublecircle" else "circle"
  let nodeLine (node : Nat) := "  " ++ a.nodeName node ++ " [shape=" ++ shape node ++ "];\n"
  let exitLine (node : Nat) (e : Exit) :=
    "  " ++ a.nodeName node ++ " -> " ++ a.nodeName e.target ++ " [label=\"" ++
      labelText e.label ++ "\"];\n"
  "digraph protocol \x7b\n  rankdir=LR;\n" ++
    String.join (numbers.map nodeLine) ++
    String.join (numbers.flatMap fun node => (a.exitsFrom node).map (exitLine node)) ++ "\x7d\n"

end Automaton

end Interaction
