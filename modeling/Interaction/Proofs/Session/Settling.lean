import Interaction.Proofs.Session.Completeness
import Interaction.Proofs.Session.Expected
import Mathlib.Order.Filter.AtTopBot.Basic

/-!
This module contains settling in rounds. A round follows the silent edges of all active nodes once;
a node that can only be left silently does not stay active, unless such an edge leads to it. The
rounds need not come to an end, and what they come to may have more nodes than a session rests at.
-/

namespace Interaction

namespace Session

open Relation Automaton

def settleRound (a : Automaton) (active : List Nat) : List Nat :=
  (List.range a.nodes).filter fun node =>
    (active.contains node && !a.isPassage node) ||
      active.any fun p => (a.silentTargets p).contains node

def rounds (a : Automaton) (reached : List Nat) : Nat → List Nat
  | 0 => reached
  | k + 1 => settleRound a (rounds a reached k)

def reachedBy (l : Language) (w : List Event) : List Nat :=
  match w.getLast? with
  | none => [(compile l).start]
  | some e => (after l w.dropLast).active.flatMap ((compile l).targetsOf e)

theorem active_after (l : Language) (w : List Event) :
    (after l w).active = settle (compile l) (reachedBy l w) := by
  cases w using List.reverseRecOn with
  | nil => rfl
  | append_singleton w e =>
    have same : (after l w).automaton = compile l := automaton_follow
    rw [← push_after]
    unfold push reachedBy
    rw [same, List.getLast?_concat, List.dropLast_concat]

section Rounds

variable {a : Automaton} {active active' reached : List Nat} {p q k m : Nat}

theorem mem_settleRound (closed : a.Closed) :
    q ∈ settleRound a active ↔
      (q ∈ active ∧ q < a.nodes ∧ a.isPassage q = false) ∨ ∃ p ∈ active, a.Silent p q := by
  unfold settleRound
  simp only [List.mem_filter, List.mem_range, Bool.or_eq_true, Bool.and_eq_true,
    List.contains_iff_mem, Bool.not_eq_true', List.any_eq_true, mem_silentTargets]
  constructor
  . rintro ⟨inside, ⟨mem, stays⟩ | found⟩
    . exact .inl ⟨mem, inside, stays⟩
    . exact .inr found
  . rintro (⟨mem, inside, stays⟩ | ⟨p, mem, edge⟩)
    . exact ⟨inside, .inl ⟨mem, stays⟩⟩
    . exact ⟨closed edge, .inr ⟨p, mem, edge⟩⟩

theorem settleRound_mono (closed : a.Closed) (le : active ⊆ active') :
    settleRound a active ⊆ settleRound a active' := by
  intro q mem
  rw [mem_settleRound closed] at mem ⊢
  rcases mem with ⟨mem, stays⟩ | ⟨p, mem, edge⟩
  . exact .inl ⟨le mem, stays⟩
  . exact .inr ⟨p, le mem, edge⟩

theorem lt_of_mem_settleRound (mem : q ∈ settleRound a active) : q < a.nodes :=
  List.mem_range.1 (List.mem_filter.1 mem).1

theorem settleRound_eq_settle
    (same : ∀ q, q ∈ settleRound a active ↔ q ∈ settle a reached) :
    settleRound a active = settle a reached := by
  unfold settleRound settle at *
  apply List.filter_congr
  intro q inside
  have iff := same q
  simp only [List.mem_filter, inside, true_and] at iff
  exact Bool.eq_iff_iff.2 iff

theorem exists_of_mem_rounds (closed : a.Closed) (mem : q ∈ rounds a reached k) :
    ∃ p ∈ reached, ReflTransGen a.Silent p q := by
  induction k generalizing q with
  | zero => exact ⟨q, mem, .refl⟩
  | succ k ih =>
    rcases (mem_settleRound closed).1 mem with ⟨mem, _⟩ | ⟨r, mem, edge⟩
    . exact ih mem
    . obtain ⟨p, start, path⟩ := ih mem
      exact ⟨p, start, path.tail edge⟩

theorem mem_rounds_succ (closed : a.Closed) (mem : p ∈ rounds a reached k) (edge : a.Silent p q) :
    q ∈ rounds a reached (k + 1) :=
  (mem_settleRound closed).2 (.inr ⟨p, mem, edge⟩)

theorem mem_rounds_of_path (closed : a.Closed) (reached : List Nat)
    (path : ReflTransGen a.Silent p q) :
    ∃ length, ∀ k, p ∈ rounds a reached k → q ∈ rounds a reached (k + length) := by
  induction path with
  | refl => exact ⟨0, fun _ mem => mem⟩
  | tail _ edge ih =>
    obtain ⟨length, along⟩ := ih
    exact ⟨length + 1, fun k mem => mem_rounds_succ closed (along k mem) edge⟩

/-- Whether a node need not be left silently, or a silent edge leads from it to itself. -/
def Lasts (a : Automaton) (node : Nat) : Prop := a.isPassage node = false ∨ a.Silent node node

theorem mem_rounds_of_lasts (closed : a.Closed) (inside : q < a.nodes) (lasts : Lasts a q)
    (mem : q ∈ rounds a reached m) (le : m ≤ k) : q ∈ rounds a reached k := by
  induction le with
  | refl => exact mem
  | step _ ih =>
    rcases lasts with stays | loop
    . exact (mem_settleRound closed).2 (.inl ⟨ih, inside, stays⟩)
    . exact mem_rounds_succ closed ih loop

theorem exists_mem_rounds_of_cycle (closed : a.Closed) (cycle : TransGen a.Silent q q)
    (mem : q ∈ rounds a reached k) (m : Nat) : ∃ k ≥ m, q ∈ rounds a reached k := by
  obtain ⟨r, edge, path⟩ := TransGen.head'_iff.1 cycle
  obtain ⟨length, along⟩ := mem_rounds_of_path closed reached path
  induction m with
  | zero => exact ⟨k, Nat.zero_le k, mem⟩
  | succ m ih =>
    obtain ⟨k, le, mem⟩ := ih
    exact ⟨k + 1 + length, by omega, along (k + 1) (mem_rounds_succ closed mem edge)⟩

theorem rests_iff_stays_or_cycle (closed : a.Closed) :
    a.Rests q ↔ a.isPassage q = false ∨ TransGen a.Silent q q := by
  rw [rests_iff closed, Bool.or_eq_true, Bool.not_eq_true', onSilentCycle_iff closed]

theorem mem_settle_of_mem_rounds (closed : a.Closed) (inside : q < a.nodes) (rests : a.Rests q)
    (mem : q ∈ rounds a reached k) : q ∈ settle a reached := by
  obtain ⟨p, start, path⟩ := exists_of_mem_rounds closed mem
  refine (mem_settle closed).2 ⟨⟨p, start, ?_, path⟩, rests⟩
  rcases path.cases_head with rfl | ⟨_, edge, _⟩
  . exact inside
  . exact HasEdge.source_lt edge

theorem mem_settle_iff_recurs (closed : a.Closed) :
    q ∈ settle a reached ↔ (∀ m, ∃ k ≥ m, q ∈ rounds a reached k) ∧ a.Rests q := by
  constructor
  . intro mem
    obtain ⟨⟨p, start, inside, path⟩, rests⟩ := (mem_settle closed).1 mem
    refine ⟨?_, rests⟩
    intro m
    obtain ⟨length, along⟩ := mem_rounds_of_path closed reached path
    have mem : q ∈ rounds a reached (0 + length) := along 0 start
    rcases (rests_iff_stays_or_cycle closed).1 rests with stays | cycle
    . have inside := closed.lt_of_silent path inside
      exact ⟨max m (0 + length), le_max_left _ _,
        mem_rounds_of_lasts closed inside (.inl stays) mem (le_max_right _ _)⟩
    . exact exists_mem_rounds_of_cycle closed cycle mem m
  . rintro ⟨recurs, rests⟩
    -- a number that is no node does not outlast the first round
    obtain ⟨k, positive, mem⟩ := recurs 1
    obtain ⟨k, rfl⟩ := Nat.exists_eq_add_of_le' positive
    exact mem_settle_of_mem_rounds closed (lt_of_mem_settleRound mem) rests mem

open Classical in
noncomputable def behind (a : Automaton) (node : Nat) : Finset Nat :=
  (Finset.range a.nodes).filter (TransGen a.Silent · node)

theorem lt_of_transGen (path : TransGen a.Silent p q) : p < a.nodes := by
  obtain ⟨_, edge, _⟩ := TransGen.head'_iff.1 path
  exact HasEdge.source_lt edge

theorem mem_behind : p ∈ behind a q ↔ TransGen a.Silent p q := by
  unfold behind
  simp only [Finset.mem_filter, Finset.mem_range, and_iff_right_iff_imp]
  exact lt_of_transGen

def Apart (a : Automaton) (reached : List Nat) (q : Nat) : Prop :=
  ∀ p ∈ settle a reached, ¬ReflTransGen a.Silent p q

theorem Apart.not_rests (closed : a.Closed) (apart : Apart a reached q) (inside : q < a.nodes)
    (mem : q ∈ rounds a reached k) : ¬a.Rests q := by
  intro rests
  exact apart q (mem_settle_of_mem_rounds closed inside rests mem) .refl

theorem Apart.le_card_behind (closed : a.Closed) (apart : Apart a reached q)
    (mem : q ∈ rounds a reached k) : k ≤ (behind a q).card := by
  induction k generalizing q with
  | zero => exact Nat.zero_le _
  | succ k ih =>
    rcases (mem_settleRound closed).1 mem with ⟨mem, inside, stays⟩ | ⟨r, mem, edge⟩
    . have rests := (rests_iff_stays_or_cycle closed).2 (.inl stays)
      exact absurd rests (apart.not_rests closed inside mem)
    . have apartHere : Apart a reached r := fun p settled path => apart p settled (path.tail edge)
      have stuck := apartHere.not_rests closed (HasEdge.source_lt edge) mem
      have fresh : r ∉ behind a r := by
        rw [mem_behind]
        intro cycle
        exact stuck (.inr (.inr cycle))
      have more : insert r (behind a r) ⊆ behind a q := by
        intro p mem
        rw [Finset.mem_insert] at mem
        rcases mem with rfl | mem
        . exact mem_behind.2 (.single edge)
        . exact mem_behind.2 ((mem_behind.1 mem).tail edge)
      calc
        k + 1 ≤ (behind a r).card + 1 := Nat.succ_le_succ (ih apartHere mem)
        _ = (insert r (behind a r)).card := (Finset.card_insert_of_notMem fresh).symm
        _ ≤ (behind a q).card := Finset.card_le_card more

theorem exists_of_mem_rounds_late (closed : a.Closed) (inside : q < a.nodes) (late : a.nodes ≤ k)
    (mem : q ∈ rounds a reached k) : ∃ p ∈ settle a reached, ReflTransGen a.Silent p q := by
  by_contra none
  have apart : Apart a reached q := fun p settled path => none ⟨p, settled, path⟩
  have fewer : behind a q ⊂ Finset.range a.nodes := by
    refine ⟨fun p mem => Finset.mem_range.2 (lt_of_transGen (mem_behind.1 mem)), ?_⟩
    intro all
    have cycle : q ∈ behind a q := all (Finset.mem_range.2 inside)
    exact apart.not_rests closed inside mem (.inr (.inr (mem_behind.1 cycle)))
  have few := Finset.card_lt_card fewer
  have many := apart.le_card_behind closed mem
  rw [Finset.card_range] at few
  omega

def Shut (a : Automaton) (active : List Nat) : Prop :=
  ∀ p ∈ active, ∀ q, a.Silent p q → q ∈ active

theorem Shut.of_path (shut : Shut a active) (path : ReflTransGen a.Silent p q) (mem : p ∈ active) :
    q ∈ active := by
  induction path with
  | refl => exact mem
  | tail _ edge ih => exact shut _ ih _ edge

theorem settle_subset_settleRound (closed : a.Closed) :
    settle a reached ⊆ settleRound a (settle a reached) := by
  intro q mem
  obtain ⟨⟨p, start, inside, path⟩, rests⟩ := (mem_settle closed).1 mem
  rw [mem_settleRound closed]
  rcases (rests_iff_stays_or_cycle closed).1 rests with stays | cycle
  . exact .inl ⟨mem, closed.lt_of_silent path inside, stays⟩
  -- the node before it on the cycle lies on the cycle as well
  . obtain ⟨r, round, edge⟩ := TransGen.tail'_iff.1 cycle
    refine .inr ⟨r, (mem_settle closed).2 ⟨⟨p, start, inside, path.trans round⟩, ?_⟩, edge⟩
    exact .inr (.inr (.head' edge round))

theorem settle_subset_rounds (closed : a.Closed) (all : settle a reached ⊆ rounds a reached m)
    (le : m ≤ k) : settle a reached ⊆ rounds a reached k := by
  induction le with
  | refl => exact all
  | step _ ih =>
    intro q mem
    exact settleRound_mono closed ih (settle_subset_settleRound closed mem)

/-- Whether the rounds reach a list of nodes and do not change it any more. -/
def ComeTo (a : Automaton) (reached final : List Nat) : Prop :=
  ∃ m, ∀ k ≥ m, rounds a reached k = final

theorem comeTo_settle_iff (closed : a.Closed) :
    ComeTo a reached (settle a reached) ↔
      Shut a (settle a reached) ∧ ∃ k, settle a reached ⊆ rounds a reached k := by
  constructor
  . rintro ⟨m, constant⟩
    refine ⟨?_, m, ?_⟩
    . intro p mem q edge
      have next := constant (m + 1) (Nat.le_succ m)
      rw [← constant m le_rfl] at mem
      rw [← next]
      exact mem_rounds_succ closed mem edge
    . rw [constant m le_rfl]
      exact List.Subset.refl _
  . rintro ⟨shut, m, all⟩
    refine ⟨m + a.nodes + 1, ?_⟩
    intro k late
    obtain ⟨k, rfl⟩ := Nat.exists_eq_add_of_le' (Nat.le_of_add_left_le late)
    apply settleRound_eq_settle
    intro q
    constructor
    . intro mem
      obtain ⟨p, settled, path⟩ := exists_of_mem_rounds_late (k := k + 1) closed
        (lt_of_mem_settleRound mem) (by omega) mem
      exact shut.of_path path settled
    . intro mem
      exact settle_subset_rounds (k := k + 1) closed all (by omega) mem

theorem exists_subset_rounds (closed : a.Closed) (kept : ∀ q ∈ settle a reached,
      ∃ p ∈ settle a reached, Lasts a p ∧ ReflTransGen a.Silent p q) :
    ∃ k, settle a reached ⊆ rounds a reached k := by
  have each : ∀ q ∈ (settle a reached).toFinset, ∀ᶠ k in Filter.atTop, q ∈ rounds a reached k := by
    intro q mem
    obtain ⟨p, settled, lasts, path⟩ := kept q (List.mem_toFinset.1 mem)
    obtain ⟨m, _, here⟩ := ((mem_settle_iff_recurs closed).1 settled).1 0
    obtain ⟨length, along⟩ := mem_rounds_of_path closed reached path
    have inside : p < a.nodes := List.mem_range.1 (List.mem_filter.1 settled).1
    refine Filter.eventually_atTop.2 ⟨m + length, ?_⟩
    intro k late
    have before : p ∈ rounds a reached (k - length) :=
      mem_rounds_of_lasts closed inside lasts here (by omega)
    have after := along _ before
    rwa [Nat.sub_add_cancel (by omega)] at after
  obtain ⟨k, all⟩ := ((Filter.eventually_all_finset _).2 each).exists
  exact ⟨k, fun q mem => all q (List.mem_toFinset.2 mem)⟩

end Rounds

/--
A session rests at those nodes that are active again and again when silent edges are followed in
rounds, except for the ones that can only be left silently and lie on no silent cycle. What else is
active in late rounds is ahead of the nodes where it rests. The rounds come to these nodes and stop
there exactly if no silent edge leads from them to others, and they are all active in one round;
such a round comes if each of them can be reached from one that lasts.
-/
theorem active_recurs (l : Language) (w : List Event) :
    (∀ q, q ∈ (after l w).active ↔
      (∀ m, ∃ k ≥ m, q ∈ rounds (compile l) (reachedBy l w) k) ∧ (compile l).Rests q) ∧
    (∀ k ≥ (compile l).nodes, ∀ q ∈ rounds (compile l) (reachedBy l w) k,
      q ∉ (after l w).active →
        ¬(compile l).Rests q ∧ ∃ p ∈ (after l w).active, TransGen (compile l).Silent p q) ∧
    (ComeTo (compile l) (reachedBy l w) (after l w).active ↔
      Shut (compile l) (after l w).active ∧
        ∃ k, (after l w).active ⊆ rounds (compile l) (reachedBy l w) k) ∧
    ((∀ q ∈ (after l w).active, ∃ p ∈ (after l w).active,
        Lasts (compile l) p ∧ ReflTransGen (compile l).Silent p q) →
      ∃ k, (after l w).active ⊆ rounds (compile l) (reachedBy l w) k) := by
  have closed : (compile l).Closed := compile_closed l
  rw [active_after]
  refine ⟨?_, ?_, comeTo_settle_iff closed, exists_subset_rounds closed⟩
  . intro q
    exact mem_settle_iff_recurs closed
  . intro k late q mem other
    have positive := two_le_nodes_compile l
    obtain ⟨k, rfl⟩ := Nat.exists_eq_add_of_le' (show 1 ≤ k by omega)
    have inside : q < (compile l).nodes := lt_of_mem_settleRound mem
    obtain ⟨p, settled, path⟩ := exists_of_mem_rounds_late closed inside late mem
    refine ⟨fun rests => other (mem_settle_of_mem_rounds closed inside rests mem), p, settled, ?_⟩
    rcases reflTransGen_iff_eq_or_transGen.1 path with rfl | path
    . exact absurd settled other
    . exact path

theorem active_recurs_nested :
    let l : Language :=
      .zeroOrMore (.zeroOrMore (.sequence [.zeroOrMore (.output "a"), .output "b"]))
    (after l []).active = [1, 2] ∧ ComeTo (compile l) (reachedBy l []) [1, 2] := by
  intro l
  have active : (after l []).active = [1, 2] := by cbv
  have shut : ∀ p ∈ [1, 2], ∀ q ∈ (compile l).silentTargets p, q ∈ [1, 2] := by decide
  obtain ⟨_, _, comeTo_iff, together⟩ := active_recurs l []
  rw [active] at comeTo_iff together
  refine ⟨active, comeTo_iff.2 ⟨?_, together ?_⟩⟩
  . intro p mem q edge
    exact shut p mem q (mem_silentTargets.2 edge)
  . have loop : (compile l).Silent 1 1 := mem_silentTargets.1 (by decide)
    have stays : (compile l).isPassage 2 = false := by decide
    intro q mem
    refine ⟨q, mem, ?_, .refl⟩
    simp only [List.mem_cons, List.not_mem_nil, or_false] at mem
    rcases mem with rfl | rfl
    . exact .inr loop
    . exact .inl stays

theorem ComeTo.unique {a : Automaton} {reached final final' : List Nat}
    (h : ComeTo a reached final) (h' : ComeTo a reached final') : final = final' := by
  obtain ⟨m, constant⟩ := h
  obtain ⟨m', constant'⟩ := h'
  rw [← constant _ (le_max_left m m'), constant' _ (le_max_right m m')]

theorem comeTo_of_fixed {a : Automaton} {reached final : List Nat} {m : Nat}
    (here : rounds a reached m = final) (fixed : settleRound a final = final) :
    ComeTo a reached final := by
  refine ⟨m, ?_⟩
  intro k le
  induction le with
  | refl => exact here
  | step _ ih =>
    unfold rounds
    rw [ih, fixed]

/--
In the first language an event leaves the start, which thereby stays active, and each round brings
the end back to which a silent edge leads from there; yet no session rests at the end. In the second
language two nodes that can only be left silently take turns for ever.
-/
theorem not_comeTo_active :
    let l : Language := .either [.optional (.output "a"),
      .zeroOrMore (.sequence [.zeroOrMore (.output "b"), .output "c"])]
    let l' : Language := .zeroOrMore (.sequence [
      .zeroOrMore (.sequence [.zeroOrMore (.output "a"), .output "b"]),
      .zeroOrMore (.sequence [.zeroOrMore (.output "c"), .output "d"])])
    (Language.parse "out:a ? | (out:b * ; out:c) *" = .ok l ∧
      ¬ComeTo (compile l) (reachedBy l []) (after l []).active) ∧
    Language.parse "((out:a * ; out:b) * ; (out:c * ; out:d) *) *" = .ok l' ∧
      ¬∃ final, ComeTo (compile l') (reachedBy l' []) final := by
  intro l l'
  refine ⟨⟨?_, ?_⟩, ?_, ?_⟩
  . have text : "out:a ? | (out:b * ; out:c) *" = l.render := by decide
    rw [text]
    apply Language.parse_render_of_tidy
    simp [l, Language.Each, Language.EachOf, Language.Tidy, Language.output]
    decide
  . have active : (after l []).active = [0, 2] := by cbv
    have whole : ComeTo (compile l) (reachedBy l []) [0, 1, 2] := by
      have second : rounds (compile l) (reachedBy l []) 2 = [0, 1, 2] := by cbv
      exact comeTo_of_fixed second (by cbv)
    intro h
    rw [active] at h
    cases h.unique whole
  . have text : "((out:a * ; out:b) * ; (out:c * ; out:d) *) *" = l'.render := by decide
    rw [text]
    apply Language.parse_render_of_tidy
    simp [l', Language.Each, Language.EachOf, Language.Tidy, Language.output]
    decide
  . have turn : settleRound (compile l') [1, 3, 4] = [2, 3, 4] := by cbv
    have turn' : settleRound (compile l') [2, 3, 4] = [1, 3, 4] := by cbv
    have turns (n : Nat) : rounds (compile l') (reachedBy l' []) (2 * n + 3) = [1, 3, 4] := by
      induction n with
      | zero => cbv
      | succ n ih =>
        have next : rounds (compile l') (reachedBy l' []) (2 * n + 4) = [2, 3, 4] := by
          rw [← turn, ← ih]
          rfl
        rw [← turn', ← next]
        rfl
    rintro ⟨final, m, constant⟩
    have here := constant (2 * m + 3) (by omega)
    have there : settleRound (compile l') final = final := by
      have next := constant (2 * m + 4) (by omega)
      rw [← here] at next ⊢
      exact next
    rw [← here, turns, turn] at there
    cases there

end Session

end Interaction
