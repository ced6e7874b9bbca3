import Interaction.Proofs.Automaton.Path
import Mathlib.Logic.Basic

/-!
This module contains the correctness of the walks along silent edges: a walk marks exactly the nodes
that silent paths lead to, and finds a silent cycle if there is one.
-/

namespace Interaction

namespace Automaton

open Relation

variable {a : Automaton} {nodes : List Nat} {marks : Array Bool} {w : Walk} {p q node : Nat}

def Marked (marks : Array Bool) (node : Nat) : Prop := marks[node]? = some true

theorem marked_iff_getD : Marked marks node ↔ marks[node]?.getD false = true := by
  unfold Marked
  cases marks[node]? <;> simp

theorem marked_set {h : node < marks.size} :
    Marked (marks.set node true h) q ↔ q = node ∨ Marked marks q := by
  unfold Marked
  rw [Array.getElem?_set]
  split
  . next same => simp [same]
  . next other => simp [Ne.symm other]

theorem not_marked_replicate {size : Nat} : ¬Marked (Array.replicate size false) q := by
  unfold Marked
  rw [Array.getElem?_replicate]
  split <;> simp

def Fresh (marks : Array Bool) (node : Nat) : Prop :=
  ∃ bound : node < marks.size, marks[node] = false

theorem fresh_iff : Fresh marks node ↔ node < marks.size ∧ ¬Marked marks node := by
  unfold Fresh Marked
  constructor
  . rintro ⟨inside, unmarked⟩
    refine ⟨inside, ?_⟩
    rw [Array.getElem?_eq_getElem inside, unmarked]
    nofun
  . rintro ⟨inside, unmarked⟩
    refine ⟨inside, ?_⟩
    rw [Array.getElem?_eq_getElem inside] at unmarked
    simpa using unmarked

namespace Walk

theorem find_of_fresh (fresh : Fresh w.marks node) :
    w.find node = ⟨node :: w.todo, w.marks.set node true fresh.1⟩ :=
  dif_pos fresh

theorem find_of_not_fresh (known : ¬Fresh w.marks node) : w.find node = w :=
  dif_neg known

theorem size_marks_find (w : Walk) (node : Nat) : (w.find node).marks.size = w.marks.size := by
  by_cases fresh : Fresh w.marks node
  . rw [find_of_fresh fresh, Array.size_set]
  . rw [find_of_not_fresh fresh]

theorem marked_find_iff :
    Marked (w.find node).marks q ↔ Marked w.marks q ∨ q = node ∧ q < w.marks.size := by
  by_cases fresh : Fresh w.marks node
  . rw [find_of_fresh fresh, marked_set, or_comm]
    apply or_congr_right
    rw [iff_self_and]
    rintro rfl
    exact fresh.1
  . rw [find_of_not_fresh fresh]
    rw [fresh_iff, not_and, not_not] at fresh
    constructor
    . exact .inl
    . rintro (marked | ⟨rfl, inside⟩)
      . exact marked
      . exact fresh inside

theorem mem_todo_find_iff :
    q ∈ (w.find node).todo ↔ q ∈ w.todo ∨ q = node ∧ Fresh w.marks q := by
  by_cases fresh : Fresh w.marks node
  . rw [find_of_fresh fresh, List.mem_cons, or_comm]
    apply or_congr_right
    rw [iff_self_and]
    rintro rfl
    exact fresh
  . rw [find_of_not_fresh fresh]
    constructor
    . exact .inl
    . rintro (mem | ⟨rfl, here⟩)
      . exact mem
      . exact absurd here fresh

theorem size_marks_findAll (w : Walk) (nodes : List Nat) :
    (w.findAll nodes).marks.size = w.marks.size := by
  induction nodes generalizing w with
  | nil => rfl
  | cons node nodes ih => exact (ih (w.find node)).trans (size_marks_find w node)

theorem marked_findAll_iff :
    Marked (w.findAll nodes).marks q ↔ Marked w.marks q ∨ q ∈ nodes ∧ q < w.marks.size := by
  induction nodes generalizing w with
  | nil => simp [findAll]
  | cons node nodes ih =>
    refine ih.trans ?_
    rw [marked_find_iff, size_marks_find, List.mem_cons, or_and_right, or_assoc]

theorem mem_todo_findAll_iff :
    q ∈ (w.findAll nodes).todo ↔ q ∈ w.todo ∨ q ∈ nodes ∧ Fresh w.marks q := by
  induction nodes generalizing w with
  | nil => simp [findAll]
  | cons node nodes ih =>
    refine ih.trans ?_
    simp only [mem_todo_find_iff, fresh_iff, marked_find_iff, size_marks_find, List.mem_cons]
    grind

end Walk

section

variable {todo : List Nat}

theorem size_marks_visit : (a.visit node todo marks).marks.size = marks.size :=
  Walk.size_marks_findAll _ _

theorem marked_visit_iff (closed : a.Closed) (size : marks.size = a.nodes) :
    Marked (a.visit node todo marks).marks q ↔ Marked marks q ∨ a.Silent node q := by
  unfold visit
  rw [Walk.marked_findAll_iff, mem_silentTargets, size]
  apply or_congr_right
  rw [and_iff_left_iff_imp]
  exact closed

theorem mem_todo_visit_iff (closed : a.Closed) (size : marks.size = a.nodes) :
    q ∈ (a.visit node todo marks).todo ↔ q ∈ todo ∨ a.Silent node q ∧ ¬Marked marks q := by
  unfold visit
  rw [Walk.mem_todo_findAll_iff, mem_silentTargets, fresh_iff, size]
  apply or_congr_right
  apply and_congr_right
  intro edge
  rw [and_iff_right_iff_imp]
  exact fun _ => closed edge

/-- Silent edges of marked nodes lead to marked nodes, or the nodes are still to be visited. -/
def Pending (a : Automaton) (w : Walk) : Prop :=
  ∀ {p q : Nat}, Marked w.marks p → a.Silent p q → p ∈ w.todo ∨ Marked w.marks q

theorem Pending.visit (closed : a.Closed) (size : marks.size = a.nodes)
    (h : Pending a ⟨node :: todo, marks⟩) : Pending a (a.visit node todo marks) := by
  intro p q marked edge
  rw [mem_todo_visit_iff closed size, marked_visit_iff closed size] at *
  by_cases known : Marked marks p
  . rcases h known edge with mem | found
    . rcases List.mem_cons.1 mem with rfl | mem
      . exact .inr (.inr edge)
      . exact .inl (.inl mem)
    . exact .inr (.inl found)
  . exact .inl (.inr ⟨marked.resolve_left known, known⟩)

theorem Pending.along (h : Pending a w) (marked : Marked w.marks p)
    (path : ReflTransGen a.Silent p q) :
    Marked w.marks q ∨ ∃ r ∈ w.todo, TransGen a.Silent r q := by
  induction path with
  | refl => exact .inl marked
  | tail _ edge ih =>
    rcases ih with marked | ⟨r, mem, path⟩
    . rcases h marked edge with mem | found
      . exact .inr ⟨_, mem, .single edge⟩
      . exact .inl found
    . exact .inr ⟨r, mem, path.tail edge⟩

theorem marked_explore_iff (closed : a.Closed) (size : w.marks.size = a.nodes)
    (pending : Pending a w) :
    Marked (a.explore w) q ↔ Marked w.marks q ∨ ∃ p ∈ w.todo, TransGen a.Silent p q := by
  fun_induction explore a w with
  | case1 marks => simp
  | case2 node todo marks ih =>
    have rest : Pending a (a.visit node todo marks) := pending.visit closed size
    rw [ih (size_marks_visit.trans size) rest, marked_visit_iff closed size]
    simp only [mem_todo_visit_iff closed size]
    constructor
    . rintro ((marked | edge) | ⟨p, mem | ⟨edge, _⟩, path⟩)
      . exact .inl marked
      . exact .inr ⟨node, List.mem_cons_self, .single edge⟩
      . exact .inr ⟨p, List.mem_cons_of_mem _ mem, path⟩
      . exact .inr ⟨node, List.mem_cons_self, .head edge path⟩
    . rintro (marked | ⟨p, mem, path⟩)
      . exact .inl (.inl marked)
      . rcases List.mem_cons.1 mem with rfl | mem
        . obtain ⟨r, edge, path⟩ := TransGen.head'_iff.1 path
          have found : Marked (a.visit _ todo marks).marks r :=
          (marked_visit_iff closed size).2 (.inr edge)
          have along := rest.along found path
          rw [marked_visit_iff closed size] at along
          simpa only [mem_todo_visit_iff closed size] using along
        . exact .inr ⟨p, .inl mem, path⟩

theorem comesTo_iff (closed : a.Closed) (size : w.marks.size = a.nodes) (pending : Pending a w)
    (unseen : ¬Marked w.marks node) :
    a.comesTo node w = true ↔ ∃ p ∈ w.todo, TransGen a.Silent p node := by
  fun_induction comesTo a node w with
  | case1 marks => simp
  | case2 next todo marks here =>
    rw [List.contains_iff_mem, mem_silentTargets] at here
    exact iff_of_true rfl ⟨next, List.mem_cons_self, .single here⟩
  | case3 next todo marks other ih =>
    rw [List.contains_iff_mem, mem_silentTargets] at other
    have rest : Pending a (a.visit next todo marks) := pending.visit closed size
    -- the node would be marked only if the search had come to it
    have unseenStill : ¬Marked (a.visit next todo marks).marks node := by
      rw [marked_visit_iff closed size, not_or]
      exact ⟨unseen, other⟩
    rw [ih (size_marks_visit.trans size) rest unseenStill]
    constructor
    . rintro ⟨p, mem, path⟩
      rcases (mem_todo_visit_iff closed size).1 mem with mem | ⟨edge, _⟩
      . exact ⟨p, List.mem_cons_of_mem _ mem, path⟩
      . exact ⟨next, List.mem_cons_self, .head edge path⟩
    . rintro ⟨p, mem, path⟩
      rcases List.mem_cons.1 mem with rfl | mem
      . obtain ⟨r, edge, path⟩ := TransGen.head'_iff.1 path
        have found : Marked (a.visit _ todo marks).marks r :=
          (marked_visit_iff closed size).2 (.inr edge)
        exact (rest.along found path).resolve_left unseenStill
      . exact ⟨p, (mem_todo_visit_iff closed size).2 (.inl mem), path⟩

end

theorem pending_of_unmarked (none : ∀ node, ¬Marked w.marks node) : Pending a w :=
  fun marked _ => absurd marked (none _)

theorem marked_walkFrom_iff : Marked (a.walkFrom nodes).marks q ↔ q ∈ nodes ∧ q < a.nodes := by
  unfold walkFrom
  rw [Walk.marked_findAll_iff, or_iff_right not_marked_replicate, Array.size_replicate]

theorem mem_todo_walkFrom_iff : q ∈ (a.walkFrom nodes).todo ↔ q ∈ nodes ∧ q < a.nodes := by
  unfold walkFrom
  rw [Walk.mem_todo_findAll_iff, or_iff_right List.not_mem_nil, fresh_iff, Array.size_replicate,
    and_iff_left not_marked_replicate]

theorem marked_closure_iff (closed : a.Closed) :
    Marked (a.closure nodes) q ↔ ∃ p ∈ nodes, p < a.nodes ∧ ReflTransGen a.Silent p q := by
  have size : (a.walkFrom nodes).marks.size = a.nodes :=
    (Walk.size_marks_findAll _ _).trans Array.size_replicate
  have pending : Pending a (a.walkFrom nodes) := by
    intro p q marked _
    rw [mem_todo_walkFrom_iff]
    exact .inl (marked_walkFrom_iff.1 marked)
  unfold closure
  rw [marked_explore_iff closed size pending]
  simp only [marked_walkFrom_iff, mem_todo_walkFrom_iff, reflTransGen_iff_eq_or_transGen]
  grind

theorem onSilentCycle_iff (closed : a.Closed) :
    a.onSilentCycle node = true ↔ TransGen a.Silent node node := by
  unfold onSilentCycle
  rw [comesTo_iff closed Array.size_replicate (pending_of_unmarked fun _ => not_marked_replicate)
    not_marked_replicate]
  simp

theorem isPassage_iff :
    a.isPassage node = true ↔
      (∃ q, a.Silent node q) ∧ ∀ e q, ¬a.HasEdge node (some e) q := by
  unfold isPassage Silent HasEdge
  cases a.exitsFrom node with
  | nil => simp
  | cons x rest =>
    simp only [List.isEmpty_cons, Bool.not_false, Bool.true_and, List.all_eq_true,
      Option.isNone_iff_eq_none]
    constructor
    . intro silent
      constructor
      . refine ⟨x.target, ?_⟩
        rw [← silent x List.mem_cons_self]
        exact List.mem_cons_self
      . intro e q mem
        simpa using silent _ mem
    . rintro ⟨_, silent⟩ ⟨label, target⟩ mem
      cases label with
      | none => rfl
      | some e => exact absurd mem (silent e target)

/--
Whether a session rests at a node once it has reached it: no edge leaves the node, or one with an
event does, or silent edges lead from the node back to it.
-/
def Rests (a : Automaton) (node : Nat) : Prop :=
  (∀ label q, ¬a.HasEdge node label q) ∨ (∃ e q, a.HasEdge node (some e) q) ∨
    TransGen a.Silent node node

theorem rests_iff (closed : a.Closed) :
    a.Rests node ↔ (!a.isPassage node || a.onSilentCycle node) = true := by
  unfold Rests
  rw [Bool.or_eq_true, onSilentCycle_iff closed, Bool.not_eq_true', ← Bool.not_eq_true,
    isPassage_iff, ← or_assoc]
  apply or_congr_left
  constructor
  . rintro (without | ⟨e, q, edge⟩) ⟨⟨r, silent⟩, silentOnly⟩
    . exact without none r silent
    . exact silentOnly e q edge
  . intro other
    by_cases withEvent : ∃ e q, a.HasEdge node (some e) q
    . exact .inr withEvent
    . left
      -- a silent edge would make the node a passage
      rintro (_ | e) q edge
      . apply other
        refine ⟨⟨q, edge⟩, ?_⟩
        intro e r event
        exact withEvent ⟨e, r, event⟩
      . exact withEvent ⟨e, q, edge⟩

end Automaton

end Interaction
