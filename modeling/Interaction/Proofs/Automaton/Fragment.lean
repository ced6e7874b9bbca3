import Interaction.Automaton.Compile
import Interaction.Proofs.Automaton.Closure
import Interaction.Proofs.Language.Shape

/-!
This module contains where the edges of a placed language are: between its two nodes and its own
fresh ones. What leaves its two nodes can be read off the language.
-/

namespace Interaction

namespace Automaton

namespace Fragment

variable {first : Fragment} {second : Nat → Fragment} {e : Edge}

@[simp]
theorem edges_edge {source target next : Nat} {label : Option Event} :
    (edge source label target next).edges = [⟨source, label, target⟩] := rfl

@[simp]
theorem next_edge {source target next : Nat} {label : Option Event} :
    (edge source label target next).next = next := rfl

@[simp]
theorem mem_andThen :
    e ∈ (first.andThen second).edges ↔ e ∈ first.edges ∨ e ∈ (second first.next).edges :=
  List.mem_append

@[simp]
theorem next_andThen : (first.andThen second).next = (second first.next).next := rfl

/--
The edges of a fragment between `source` and `target` whose fresh nodes begin at `next`. No edge
leads to `source`, unless this is also the target.
-/
structure Within (f : Fragment) (source target next : Nat) : Prop where
  next_le : next ≤ f.next
  source_mem : ∀ e ∈ f.edges, e.source = source ∨ e.source = target ∨
    next ≤ e.source ∧ e.source < f.next
  target_mem : ∀ e ∈ f.edges, e.target = target ∨ next ≤ e.target ∧ e.target < f.next

theorem within_edge {source target next : Nat} {label : Option Event} :
    (edge source label target next).Within source target next := by
  constructor <;> simp

theorem Within.andThen {source target next source' target' next' source'' target'' : Nat}
    (h : first.Within source' target' next')
    (h' : (second first.next).Within source'' target'' first.next)
    (hnext : next ≤ next')
    (hsource : source' = source ∨ source' = target)
    (htarget : target' = target ∨ next ≤ target' ∧ target' < first.next)
    (hsource' : source'' = source ∨ source'' = target ∨ next ≤ source'' ∧ source'' < first.next)
    (htarget' : target'' = target) :
    (first.andThen second).Within source target next := by
  have le := h.next_le
  have le' := h'.next_le
  constructor
  . rw [next_andThen]
    omega
  . intro e mem
    rw [next_andThen]
    cases mem_andThen.1 mem with
    | inl mem =>
      have := h.source_mem e mem
      omega
    | inr mem =>
      have := h'.source_mem e mem
      omega
  . intro e mem
    rw [next_andThen]
    cases mem_andThen.1 mem with
    | inl mem =>
      have := h.target_mem e mem
      omega
    | inr mem =>
      have := h'.target_mem e mem
      omega

end Fragment

mutual

theorem place_within (l : Language) (source target next : Nat) :
    (place l source target next).Within source target next := by
  cases l with
  | event e => exact Fragment.within_edge
  | sequence parts => exact placeParts_within parts source target next
  | either branches => exact placeBranches_within branches source target next
  | optional body =>
    exact Fragment.within_edge.andThen (place_within body source target _)
      (le_refl _) (by simp) (by simp) (by simp) rfl
  | zeroOrMore body =>
    exact Fragment.within_edge.andThen (place_within body target target _)
      (le_refl _) (by simp) (by simp) (by simp) rfl
  | oneOrMore body =>
    exact (place_within body source target next).andThen (place_within body target target _)
      (le_refl _) (by simp) (by simp) (by simp) rfl

theorem placeParts_within (parts : List Language) (source target next : Nat) :
    (placeParts parts source target next).Within source target next := by
  match parts with
  | [] => exact Fragment.within_edge
  | [l] => exact place_within l source target next
  | l :: part :: rest =>
    have first := place_within l source next (next + 1)
    have others :=
      placeParts_within (part :: rest) next target (place l source next (next + 1)).next
    have le := first.next_le
    rw [placeParts]
    . exact first.andThen others (by omega) (by simp) (by omega) (by omega) rfl
    . simp

theorem placeBranches_within (branches : List Language) (source target next : Nat) :
    (placeBranches branches source target next).Within source target next := by
  match branches with
  | [] => constructor <;> simp [placeBranches]
  | l :: rest =>
    exact (place_within l source target next).andThen (placeBranches_within rest source target _)
      (le_refl _) (by simp) (by simp) (by simp) rfl

end

theorem nodes_compile (l : Language) : (compile l).nodes = (place l 0 1 2).next :=
  nodes_ofEdges _ _

theorem two_le_nodes_compile (l : Language) : 2 ≤ (compile l).nodes := by
  rw [nodes_compile]
  exact (place_within l 0 1 2).next_le

theorem start_lt_nodes_compile (l : Language) : (compile l).start < (compile l).nodes := by
  have := two_le_nodes_compile l
  unfold start
  omega

theorem hasEdge_compile_iff {l : Language} {p q : Nat} {label : Option Event} :
    (compile l).HasEdge p label q ↔ ⟨p, label, q⟩ ∈ (place l 0 1 2).edges := by
  have exits : ∀ {node}, node < (place l 0 1 2).next → (⟨label, q⟩ ∈ (compile l).exitsFrom node ↔
      ⟨node, label, q⟩ ∈ (place l 0 1 2).edges) := by
    intro node bound
    unfold compile
    rw [exitsFrom_ofEdges bound, List.mem_map]
    constructor
    . rintro ⟨⟨source, _, _⟩, mem, eq⟩
      rw [List.mem_filter, beq_iff_eq] at mem
      cases eq
      obtain ⟨mem, rfl⟩ := mem
      exact mem
    . intro mem
      exact ⟨_, List.mem_filter.2 ⟨mem, by simp⟩, rfl⟩
  constructor
  . intro edge
    have bound := edge.source_lt
    rw [nodes_compile] at bound
    exact (exits bound).1 edge
  . intro mem
    have within := place_within l 0 1 2
    have source := within.source_mem _ mem
    have := within.next_le
    apply (exits _).2 mem
    simp only at source
    omega

theorem compile_closed (l : Language) : (compile l).Closed := by
  intro p label q edge
  rw [hasEdge_compile_iff] at edge
  have within := place_within l 0 1 2
  have target := within.target_mem _ edge
  have := within.next_le
  rw [nodes_compile]
  simp only at target
  omega

def Fragment.Leaves (f : Fragment) (node : Nat) (label : Option Event) : Prop :=
  ∃ q, ⟨node, label, q⟩ ∈ f.edges

theorem Fragment.leaves_andThen {first : Fragment} {second : Nat → Fragment} {node : Nat}
    {label : Option Event} : (first.andThen second).Leaves node label ↔
      first.Leaves node label ∨ (second first.next).Leaves node label := by
  unfold Leaves
  simp only [mem_andThen, exists_or]

theorem Fragment.leaves_edge {source target next node : Nat} {label label' : Option Event} :
    (Fragment.edge source label target next).Leaves node label' ↔
      node = source ∧ label' = label := by
  unfold Leaves
  simp

mutual

theorem place_leaves_iff (l : Language) (source target : Nat) (label : Option Event)
    {next node : Nat} (old : node < next) : (place l source target next).Leaves node label ↔
      (node = source ∧ label ∈ l.heads) ∨
        (node = target ∧ ∃ body ∈ l.loops, label ∈ body.heads) := by
  cases l with
  | event e => simp [place, Fragment.leaves_edge, Language.heads, Language.loops]
  | sequence parts => exact placeParts_leaves_iff parts source target label old
  | either branches => exact placeBranches_leaves_iff branches source target label old
  | optional body =>
    have ih := place_leaves_iff body source target label old
    simp only [place, Fragment.leaves_andThen, Fragment.leaves_edge, Fragment.next_edge, ih,
      Language.heads, Language.loops, List.mem_cons]
    rw [and_or_left, or_assoc]
  | zeroOrMore body =>
    have ih := place_leaves_iff body target target label old
    simp only [place, Fragment.leaves_andThen, Fragment.leaves_edge, Fragment.next_edge, ih,
      Language.heads, Language.loops, List.mem_singleton, List.exists_mem_cons_iff]
    rw [and_or_left]
  | oneOrMore body =>
    have ih := place_leaves_iff body source target label old
    have le := (place_within body source target next).next_le
    have again := place_leaves_iff body target target label
      (Nat.lt_of_lt_of_le old le)
    simp only [place, Fragment.leaves_andThen, ih, again, Language.heads, Language.loops,
      List.exists_mem_cons_iff]
    grind only

theorem placeParts_leaves_iff (parts : List Language) (source target : Nat)
    (label : Option Event) {next node : Nat} (old : node < next) :
    (placeParts parts source target next).Leaves node label ↔
      (node = source ∧ label ∈ Language.headsOfParts parts) ∨
        (node = target ∧ ∃ body ∈ Language.loopsOfParts parts, label ∈ body.heads) := by
  match parts with
  | [] => simp [placeParts, Fragment.leaves_edge, Language.headsOfParts, Language.loopsOfParts]
  | [l] => exact place_leaves_iff l source target label old
  | l :: part :: rest =>
    have first := place_leaves_iff l source next label
      (Nat.lt_succ_of_lt old)
    have le := (place_within l source next (next + 1)).next_le
    -- neither what ends the first part nor what begins the others is an edge of an old node
    have fresh : node ≠ next := Nat.ne_of_lt old
    rw [placeParts, Fragment.leaves_andThen, first]
    . generalize (place l source next (next + 1)).next = next' at le
      have old' := Nat.lt_of_lt_of_le (Nat.lt_succ_of_lt old) le
      have others := placeParts_leaves_iff (part :: rest) next target label old'
      simp only [others, fresh, false_and, or_false, false_or]
      rfl
    . simp

theorem placeBranches_leaves_iff (branches : List Language) (source target : Nat)
    (label : Option Event) {next node : Nat} (old : node < next) :
    (placeBranches branches source target next).Leaves node label ↔
      (node = source ∧ label ∈ Language.headsOfBranches branches) ∨
        (node = target ∧ ∃ body ∈ Language.loopsOfBranches branches, label ∈ body.heads) := by
  match branches with
  | [] =>
    simp [placeBranches, Fragment.Leaves, Language.headsOfBranches, Language.loopsOfBranches]
  | l :: rest =>
    have first := place_leaves_iff l source target label old
    have le := (place_within l source target next).next_le
    have others := placeBranches_leaves_iff rest source target label (Nat.lt_of_lt_of_le old le)
    simp only [placeBranches, Fragment.leaves_andThen, first, others, Language.headsOfBranches,
      Language.loopsOfBranches, List.mem_append, or_and_right, exists_or]
    rw [and_or_left, and_or_left, or_or_or_comm]

end

end Automaton

end Interaction
