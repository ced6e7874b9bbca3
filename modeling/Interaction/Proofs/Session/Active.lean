import Interaction.Proofs.Automaton.Closure
import Interaction.Session
import Mathlib.Data.Finset.Card
import Mathlib.Data.Finset.Range
import Mathlib.Tactic.Push

/-!
This module contains what a session knows: after any series of events its active nodes are the nodes
that the series leads to, as far as a session rests at them.
-/

namespace Interaction

namespace Automaton

open Relation

variable {a : Automaton} {p q : Nat}

open Classical in
noncomputable def ahead (a : Automaton) (node : Nat) : Finset Nat :=
  (Finset.range a.nodes).filter (TransGen a.Silent node)

theorem mem_ahead (closed : a.Closed) : q ∈ a.ahead p ↔ TransGen a.Silent p q := by
  unfold ahead
  simp only [Finset.mem_filter, Finset.mem_range]
  constructor
  . exact And.right
  . intro path
    obtain ⟨_, _, edge⟩ := TransGen.tail'_iff.1 path
    exact ⟨closed edge, path⟩

theorem exists_rests (closed : a.Closed) (p : Nat) :
    ∃ q, ReflTransGen a.Silent p q ∧ a.Rests q := by
  by_cases rests : a.Rests p
  . exact ⟨p, .refl, rests⟩
  . have stuck := rests
    unfold Rests at stuck
    push Not at stuck
    obtain ⟨⟨label, q, edge⟩, noEvent, noCycle⟩ := stuck
    have silent : a.Silent p q := by
      cases label with
      | none => exact edge
      | some e => exact absurd edge (noEvent e q)
    by_cases same : a.Rests q
    . exact ⟨q, .single silent, same⟩
    -- the node lies on no cycle, so that fewer nodes lie ahead of the next one
    . have noCycleAhead : ¬TransGen a.Silent q q := by
        intro cycle
        exact same (.inr (.inr cycle))
      have fewer : (a.ahead q).card < (a.ahead p).card := by
        apply Finset.card_lt_card
        refine ⟨?_, ?_⟩
        . intro r mem
          rw [mem_ahead closed] at mem ⊢
          exact .head silent mem
        . intro all
          have mem : q ∈ a.ahead p := (mem_ahead closed).2 (.single silent)
          exact noCycleAhead ((mem_ahead closed).1 (all mem))
      obtain ⟨r, path, rests⟩ := exists_rests closed q
      exact ⟨r, .head silent path, rests⟩
termination_by (a.ahead p).card

end Automaton

namespace Session

open Relation Automaton

variable {a : Automaton} {s : Session} {e : Event} {v w : List Event} {q : Nat}

def follow (s : Session) (w : List Event) : Session := w.foldl push s

@[simp]
theorem follow_nil : s.follow [] = s := rfl

@[simp]
theorem follow_cons : s.follow (e :: w) = (s.push e).follow w := rfl

theorem follow_append : s.follow (v ++ w) = (s.follow v).follow w := List.foldl_append

theorem automaton_follow : (s.follow w).automaton = s.automaton := by
  induction w generalizing s with
  | nil => rfl
  | cons e w ih =>
    rw [follow_cons, ih]
    rfl

theorem mem_settle (closed : a.Closed) {reached : List Nat} :
    q ∈ settle a reached ↔
      (∃ p ∈ reached, p < a.nodes ∧ ReflTransGen a.Silent p q) ∧ a.Rests q := by
  unfold settle
  rw [List.mem_filter, Bool.and_eq_true, ← marked_iff_getD, marked_closure_iff closed,
    ← rests_iff closed, List.mem_range]
  constructor
  . rintro ⟨_, found⟩
    exact found
  . rintro ⟨⟨p, mem, inside, path⟩, rests⟩
    exact ⟨closed.lt_of_silent path inside, ⟨p, mem, inside, path⟩, rests⟩

theorem mem_active_new (closed : a.Closed) (start : a.start < a.nodes) :
    q ∈ (new a).active ↔ a.Path a.start [] q ∧ a.Rests q := by
  unfold new
  rw [mem_settle closed, path_nil_iff]
  simp [start]

theorem mem_active_push (closed : s.automaton.Closed) :
    q ∈ (s.push e).active ↔
      (∃ p ∈ s.active, ∃ p', s.automaton.HasEdge p (some e) p' ∧ s.automaton.Path p' [] q) ∧
        s.automaton.Rests q := by
  unfold push
  rw [mem_settle closed]
  apply and_congr_left
  intro _
  simp only [List.mem_flatMap, mem_targetsOf, path_nil_iff]
  constructor
  . rintro ⟨p', ⟨p, active, edge⟩, _, path⟩
    exact ⟨p, active, p', edge, path⟩
  . rintro ⟨p, active, p', edge, path⟩
    exact ⟨p', ⟨p, active, edge⟩, closed edge, path⟩

theorem mem_active_follow_new (closed : a.Closed) (start : a.start < a.nodes) :
    q ∈ ((new a).follow w).active ↔ a.Path a.start w q ∧ a.Rests q := by
  induction w using List.reverseRecOn generalizing q with
  | nil => exact mem_active_new closed start
  | append_singleton w e ih =>
    have same : ((new a).follow w).automaton = a := automaton_follow
    have closedHere : ((new a).follow w).automaton.Closed := by
      rw [same]
      exact closed
    rw [follow_append, follow_cons, follow_nil, mem_active_push closedHere, same]
    apply and_congr_left
    intro _
    constructor
    . rintro ⟨p, active, p', edge, after⟩
      have before : a.Path a.start w p := (ih.1 active).1
      exact before.append (.event edge after)
    . intro path
      obtain ⟨p, before, after⟩ := path.split
      obtain ⟨p', p'', silent, edge, rest⟩ := path_singleton_iff.1 after
      -- an event leaves `p'`, so that the session rests there
      have active : p' ∈ ((new a).follow w).active := by
        refine ih.2 ⟨?_, .inr (.inl ⟨e, p'', edge⟩)⟩
        have whole := before.append (Path.of_silent silent)
        rwa [List.append_nil] at whole
      exact ⟨p', active, p'', edge, .of_silent rest⟩

theorem verdict_eq_unexpected_iff : s.verdict = .unexpected ↔ s.active = [] := by
  unfold verdict
  cases s.active with
  | nil => simp
  | cons node rest =>
    simp only [List.isEmpty_cons, Bool.false_eq_true, ↓reduceIte, reduceCtorEq, iff_false]
    split <;> simp

theorem verdict_eq_enough_iff : s.verdict = .enough ↔ s.automaton.accept ∈ s.active := by
  unfold verdict
  rw [← List.contains_iff_mem]
  cases s.active with
  | nil => simp
  | cons node rest =>
    simp only [List.isEmpty_cons, Bool.false_eq_true, ↓reduceIte]
    split
    . next contained => simp only [contained]
    . next missing => simp only [missing, reduceCtorEq]

theorem verdict_follow_eq_unexpected_iff (closed : a.Closed) (start : a.start < a.nodes) :
    ((new a).follow w).verdict = .unexpected ↔ ¬∃ q, a.Path a.start w q := by
  rw [verdict_eq_unexpected_iff, List.eq_nil_iff_forall_not_mem]
  constructor
  . rintro none ⟨p, path⟩
    -- the path may end where no session rests, but it leads on to such a node
    obtain ⟨q, silent, rests⟩ := exists_rests closed p
    have whole := path.append (Path.of_silent silent)
    rw [List.append_nil] at whole
    exact none q ((mem_active_follow_new closed start).2 ⟨whole, rests⟩)
  . intro none q active
    exact none ⟨q, ((mem_active_follow_new closed start).1 active).1⟩

theorem verdict_follow_eq_enough_iff (closed : a.Closed) (start : a.start < a.nodes) :
    ((new a).follow w).verdict = .enough ↔ a.Path a.start w a.accept ∧ a.Rests a.accept := by
  rw [verdict_eq_enough_iff]
  have same : ((new a).follow w).automaton = a := automaton_follow
  rw [same, mem_active_follow_new closed start]

end Session

end Interaction
