import Interaction.Proofs.Automaton.Flow

/-!
This module contains that compiled automata are trim: their nodes can be counted on the language,
nothing leads back to the start, and unless there is a choice without branches each node is on a way
from the start to the end.
-/

namespace Interaction

namespace Language

mutual

def innerNodes : Language → Nat
  | .event _ => 0
  | .sequence parts => (parts.length - 1) + innerNodesOfAll parts
  | .either branches => innerNodesOfAll branches
  | .optional body => innerNodes body
  | .zeroOrMore body => innerNodes body
  | .oneOrMore body => 2 * innerNodes body

def innerNodesOfAll : List Language → Nat
  | [] => 0
  | l :: rest => innerNodes l + innerNodesOfAll rest

end

end Language

namespace Automaton

variable {a : Automaton}

def Accessible (a : Automaton) (node : Nat) : Prop := ∃ w, a.Path a.start w node

def Coaccessible (a : Automaton) (node : Nat) : Prop := ∃ w, a.Path node w a.accept

mutual

theorem next_place (l : Language) (source target next : Nat) :
    (place l source target next).next = next + l.innerNodes := by
  cases l with
  | event e => rfl
  | sequence parts =>
    rw [place, next_placeParts, Language.innerNodes, Nat.add_assoc]
  | either branches => exact next_placeBranches branches source target next
  | optional body => exact next_place body source target next
  | zeroOrMore body => exact next_place body target target next
  | oneOrMore body =>
    -- the body is placed twice
    rw [place, Fragment.next_andThen, next_place body, next_place body, Language.innerNodes]
    omega

theorem next_placeParts (parts : List Language) (source target next : Nat) :
    (placeParts parts source target next).next =
      next + (parts.length - 1) + Language.innerNodesOfAll parts := by
  match parts with
  | [] => rfl
  | [l] => exact next_place l source target next
  | l :: part :: rest =>
    have sum : Language.innerNodesOfAll (l :: part :: rest) =
        l.innerNodes + Language.innerNodesOfAll (part :: rest) := rfl
    rw [placeParts]
    . -- one node more lies between the first part and the others
      rw [Fragment.next_andThen, next_placeParts (part :: rest), next_place l, sum]
      simp only [List.length_cons]
      omega
    . simp

theorem next_placeBranches (branches : List Language) (source target next : Nat) :
    (placeBranches branches source target next).next =
      next + Language.innerNodesOfAll branches := by
  match branches with
  | [] => rfl
  | l :: rest =>
    rw [placeBranches, Fragment.next_andThen, next_placeBranches rest, next_place l,
      Language.innerNodesOfAll, Nat.add_assoc]

end

section Reached

mutual

theorem place_reached {l : Language} {source target next node : Nat}
    (each : l.Each (· ≠ .either [])) (h : a.Has (place l source target next)) (ge : next ≤ node)
    (lt : node < (place l source target next).next) : ∃ w, a.Path source w node := by
  cases l with
  | event e =>
    have : node < next := lt
    omega
  | sequence parts => exact placeParts_reached each.2 h ge lt
  | either branches => exact placeBranches_reached each.2 h ge lt
  | optional body => exact place_reached each.2 h.right ge lt
  | zeroOrMore body =>
    -- the body is placed behind the silent edge, from the target to itself
    obtain ⟨w, path⟩ := place_reached each.2 h.right ge lt
    exact ⟨w, .silent h.left.edge path⟩
  | oneOrMore body =>
    cases Nat.lt_or_ge node (place body source target next).next with
    | inl inFirst => exact place_reached each.2 h.left ge inFirst
    | inr inSecond =>
      obtain ⟨v, first⟩ := exists_path_across each.2 h.left
      obtain ⟨w, path⟩ := place_reached each.2 h.right inSecond lt
      exact ⟨v ++ w, first.append path⟩

theorem placeParts_reached {parts : List Language} {source target next node : Nat}
    (each : Language.EachOf (· ≠ .either []) parts)
    (h : a.Has (placeParts parts source target next)) (ge : next ≤ node)
    (lt : node < (placeParts parts source target next).next) : ∃ w, a.Path source w node := by
  match parts with
  | [] =>
    have : node < next := lt
    omega
  | [l] => exact place_reached each.1 h ge lt
  | l :: part :: rest =>
    rw [placeParts] at h lt
    . obtain ⟨v, first⟩ := exists_path_across each.1 h.left
      cases Nat.lt_or_ge node (place l source next (next + 1)).next with
      | inl inFirst =>
        cases Nat.eq_or_lt_of_le ge with
        | inl same => exact ⟨v, same ▸ first⟩
        | inr beyond => exact place_reached each.1 h.left beyond inFirst
      | inr inRest =>
        obtain ⟨w, path⟩ := placeParts_reached each.2 h.right inRest lt
        exact ⟨v ++ w, first.append path⟩
    . simp
    . simp

theorem placeBranches_reached {branches : List Language} {source target next node : Nat}
    (each : Language.EachOf (· ≠ .either []) branches)
    (h : a.Has (placeBranches branches source target next)) (ge : next ≤ node)
    (lt : node < (placeBranches branches source target next).next) :
    ∃ w, a.Path source w node := by
  match branches with
  | [] =>
    have : node < next := lt
    omega
  | l :: rest =>
    cases Nat.lt_or_ge node (place l source target next).next with
    | inl inFirst => exact place_reached each.1 h.left ge inFirst
    | inr inRest => exact placeBranches_reached each.2 h.right inRest lt

end

end Reached

section Compile

variable {l : Language} {node : Nat}

theorem not_hasEdge_compile_start (l : Language) (p : Nat) (label : Option Event) :
    ¬(compile l).HasEdge p label (compile l).start := by
  intro edge
  rw [hasEdge_compile_iff] at edge
  have target := (place_within l 0 1 2).target_mem _ edge
  simp only [start] at target
  omega

theorem accessible_compile (each : l.Each (· ≠ .either [])) (inside : node < (compile l).nodes) :
    (compile l).Accessible node := by
  rw [nodes_compile] at inside
  cases Nat.lt_or_ge node 2 with
  | inl old =>
    obtain rfl | rfl : node = 0 ∨ node = 1 := by omega
    . exact ⟨[], .done 0⟩
    . exact exists_path_across each (has_compile l)
  | inr fresh => exact place_reached each (has_compile l) fresh inside

/--
Edges of a compiled automaton lead to its nodes, but not to its start; its nodes can be counted on
the language; and unless a choice in the language has no branches, each node is reached from the
start, and reaches the end.
-/
theorem compile_trim (l : Language) :
    (compile l).Closed ∧
      (∀ p label, ¬(compile l).HasEdge p label (compile l).start) ∧
      (compile l).nodes = 2 + l.innerNodes ∧
      (l.Each (· ≠ .either []) → ∀ node < (compile l).nodes,
        (compile l).Accessible node ∧ (compile l).Coaccessible node) := by
  refine ⟨compile_closed l, not_hasEdge_compile_start l, ?_, ?_⟩
  . rw [nodes_compile, next_place]
  . intro each node inside
    exact ⟨accessible_compile each inside, exists_path_accept each inside⟩

def branchingRounds : Language :=
  .either [
    .oneOrMore (.sequence [.optional (.input "a"), .output "b",
      .zeroOrMore (.sequence [.input "c", .output "d"])]),
    .input "e"]

theorem compile_trim_branchingRounds :
    branchingRounds.Each (· ≠ .either []) ∧ (compile branchingRounds).nodes = 8 ∧
      (compile branchingRounds).Accessible 7 ∧ (compile branchingRounds).Coaccessible 7 := by
  have each : branchingRounds.Each (· ≠ .either []) := by
    simp [branchingRounds, Language.Each, Language.EachOf, Language.input, Language.output]
  obtain ⟨_, _, count, onWay⟩ := compile_trim branchingRounds
  have eight : (compile branchingRounds).nodes = 8 := count.trans rfl
  exact ⟨each, eight, onWay each 7 (by omega)⟩

end Compile

end Automaton

end Interaction
