import Interaction.Proofs.Automaton.Fragment

/-!
This module contains the meaning of compiled automata: the series of events on the paths of a placed
language are those of its flow. One direction builds paths. The other one labels nodes with sets of
series, such that the label of a node contains all that the edges from it lead to.
-/

namespace Interaction

namespace Automaton

open Computability Relation

variable {a : Automaton} {p q r : Nat}

def labelSeries : Option Event → SeriesSet Event
  | none => 1
  | some e => {[e]}

def paths (a : Automaton) (p q : Nat) : SeriesSet Event := {w : List Event | a.Path p w q}

def trips (a : Automaton) (p q : Nat) : SeriesSet Event :=
  {w : List Event | ∃ label r, a.HasEdge p label r ∧ w ∈ labelSeries label * a.paths r q}

theorem path_of_edge {label : Option Event} (edge : a.HasEdge p label q) :
    labelSeries label ≤ a.paths p q := by
  intro w mem
  cases label with
  | none =>
    obtain rfl : w = [] := mem
    exact .silent edge (.done q)
  | some e =>
    obtain rfl : w = [e] := mem
    exact .event edge (.done q)

theorem paths_mul_paths : a.paths p q * a.paths q r ≤ a.paths p r := by
  rintro _ ⟨v, first, w, second, rfl⟩
  exact Path.append first second

theorem trips_le_paths : a.trips p q ≤ a.paths p q := by
  rintro w ⟨label, r, edge, mem⟩
  have step : labelSeries label * a.paths r q ≤ a.paths p q :=
    (mul_le_mul' (path_of_edge edge) le_rfl).trans paths_mul_paths
  exact step mem

theorem trips_mul_paths : a.trips p q * a.paths q r ≤ a.trips p r := by
  rintro _ ⟨v, ⟨label, s, edge, first⟩, w, second, rfl⟩
  -- the trip still begins with its first edge
  refine ⟨label, s, edge, ?_⟩
  have whole : v ++ w ∈ labelSeries label * a.paths s q * a.paths q r :=
    Language.append_mem_mul first second
  rw [mul_assoc] at whole
  exact mul_le_mul' le_rfl paths_mul_paths whole

theorem labelSeries_le_trips {label : Option Event} (edge : a.HasEdge p label q) :
    labelSeries label ≤ a.trips p q := by
  intro w mem
  refine ⟨label, q, edge, ?_⟩
  rw [← List.append_nil w]
  exact Language.append_mem_mul mem (Path.done q)

theorem one_le_paths : 1 ≤ a.paths p p := by
  intro w mem
  obtain rfl : w = [] := mem
  exact .done p

theorem kstar_le_paths {S : SeriesSet Event} (h : S ≤ a.paths p p) : S∗ ≤ a.paths p p :=
  (kstar_mono h).trans (kstar_le_of_mul_le_left one_le_paths paths_mul_paths)

theorem transGen_of_nil_mem_trips (h : [] ∈ a.trips p q) : TransGen a.Silent p q := by
  obtain ⟨label, r, edge, mem⟩ := h
  rw [Language.nil_mem_mul] at mem
  obtain ⟨here, path⟩ := mem
  cases label with
  | none => exact .head' edge (path_nil_iff.1 path)
  | some e => exact absurd (Set.mem_singleton_iff.1 here) (List.cons_ne_nil e []).symm

section Covers

def Has (a : Automaton) (f : Fragment) : Prop :=
  ∀ e ∈ f.edges, a.HasEdge e.source e.label e.target

theorem Has.edge {source target next : Nat} {label : Option Event}
    (h : a.Has (.edge source label target next)) : a.HasEdge source label target :=
  h ⟨source, label, target⟩ (by simp)

theorem Has.left {first : Fragment} {second : Nat → Fragment} (h : a.Has (first.andThen second)) :
    a.Has first := by
  intro e mem
  exact h e (Fragment.mem_andThen.2 (.inl mem))

theorem Has.right {first : Fragment} {second : Nat → Fragment} (h : a.Has (first.andThen second)) :
    a.Has (second first.next) := by
  intro e mem
  exact h e (Fragment.mem_andThen.2 (.inr mem))

structure Carries (a : Automaton) (f : Language.Flow) (source target : Nat) : Prop where
  across : f.across ≤ a.trips source target
  around : f.around ≤ a.trips target target

theorem Carries.total_le {f : Language.Flow} (h : a.Carries f p q) : f.total ≤ a.paths p q := by
  have loops : f.around∗ ≤ a.paths q q := kstar_le_paths (h.around.trans trips_le_paths)
  calc
    f.total ≤ a.trips p q * a.paths q q := mul_le_mul' h.across loops
    _ ≤ a.trips p q := trips_mul_paths
    _ ≤ a.paths p q := trips_le_paths

mutual

theorem place_carries (l : Language) {source target next : Nat}
    (h : a.Has (place l source target next)) : a.Carries l.flow source target := by
  cases l with
  | event e => exact ⟨labelSeries_le_trips h.edge, zero_le⟩
  | sequence parts => exact placeParts_carries parts h
  | either branches => exact placeBranches_carries branches h
  | optional body =>
    have ih := place_carries body h.right
    exact ⟨add_le (labelSeries_le_trips h.left.edge) ih.across, ih.around⟩
  | zeroOrMore body =>
    have ih := place_carries body h.right
    exact ⟨labelSeries_le_trips h.left.edge, add_le ih.across ih.around⟩
  | oneOrMore body =>
    have ih := place_carries body h.left
    have again := place_carries body h.right
    exact ⟨ih.across, add_le again.across again.around⟩

theorem placeParts_carries (parts : List Language) {source target next : Nat}
    (h : a.Has (placeParts parts source target next)) :
    a.Carries (Language.flowOfParts parts) source target := by
  match parts with
  | [] => exact ⟨labelSeries_le_trips h.edge, zero_le⟩
  | [l] => exact place_carries l h
  | l :: part :: rest =>
    rw [placeParts] at h
    . have first := place_carries l h.left
      have others := placeParts_carries (part :: rest) h.right
      rw [Language.flowOfParts]
      . constructor
        . calc
            l.flow.total * (Language.flowOfParts (part :: rest)).across
              ≤ (a.trips source next * a.paths next next) * a.trips next target := by
                have loops := kstar_le_paths (first.around.trans trips_le_paths)
                exact mul_le_mul' (mul_le_mul' first.across loops) others.across
            _ ≤ a.trips source next * a.paths next target :=
                mul_le_mul' trips_mul_paths trips_le_paths
            _ ≤ a.trips source target := trips_mul_paths
        . exact others.around
      . simp
    . simp

theorem placeBranches_carries (branches : List Language) {source target next : Nat}
    (h : a.Has (placeBranches branches source target next)) :
    a.Carries (Language.flowOfBranches branches) source target := by
  match branches with
  | [] => exact ⟨zero_le, zero_le⟩
  | l :: rest =>
    have first := place_carries l h.left
    have others := placeBranches_carries rest h.right
    exact ⟨add_le first.across others.across, add_le first.around others.around⟩

end

theorem exists_path_across {l : Language} {source target next : Nat}
    (each : l.Each (· ≠ .either [])) (h : a.Has (place l source target next)) :
    ∃ w, a.Path source w target := by
  obtain ⟨w, mem⟩ := Language.exists_mem_series each
  exact ⟨w, (place_carries l h).total_le (Language.series_le_total l mem)⟩

mutual

theorem place_reaches {l : Language} {source target next node : Nat}
    (each : l.Each (· ≠ .either [])) (h : a.Has (place l source target next)) (ge : next ≤ node)
    (lt : node < (place l source target next).next) : ∃ w, a.Path node w target := by
  cases l with
  | event e =>
    have : node < next := lt
    omega
  | sequence parts => exact placeParts_reaches each.2 h ge lt
  | either branches => exact placeBranches_reaches each.2 h ge lt
  | optional body => exact place_reaches each.2 h.right ge lt
  | zeroOrMore body => exact place_reaches each.2 h.right ge lt
  | oneOrMore body =>
    cases Nat.lt_or_ge node (place body source target next).next with
    | inl inFirst => exact place_reaches each.2 h.left ge inFirst
    | inr inSecond => exact place_reaches each.2 h.right inSecond lt

theorem placeParts_reaches {parts : List Language} {source target next node : Nat}
    (each : Language.EachOf (· ≠ .either []) parts)
    (h : a.Has (placeParts parts source target next)) (ge : next ≤ node)
    (lt : node < (placeParts parts source target next).next) : ∃ w, a.Path node w target := by
  match parts with
  | [] =>
    have : node < next := lt
    omega
  | [l] => exact place_reaches each.1 h ge lt
  | l :: part :: rest =>
    rw [placeParts] at h lt
    . have others := placeParts_carries (part :: rest) h.right
      obtain ⟨w, mem⟩ := Language.exists_mem_seriesOfParts each.2
      have onward : a.Path next w target :=
        others.total_le (Language.seriesOfParts_le_total (part :: rest) mem)
      cases Nat.lt_or_ge node (place l source next (next + 1)).next with
      | inl inFirst =>
        cases Nat.eq_or_lt_of_le ge with
        | inl same => exact ⟨w, same ▸ onward⟩
        | inr beyond =>
          obtain ⟨v, path⟩ := place_reaches each.1 h.left beyond inFirst
          exact ⟨v ++ w, path.append onward⟩
      | inr inRest => exact placeParts_reaches each.2 h.right inRest lt
    . simp
    . simp

theorem placeBranches_reaches {branches : List Language} {source target next node : Nat}
    (each : Language.EachOf (· ≠ .either []) branches)
    (h : a.Has (placeBranches branches source target next)) (ge : next ≤ node)
    (lt : node < (placeBranches branches source target next).next) :
    ∃ w, a.Path node w target := by
  match branches with
  | [] =>
    have : node < next := lt
    omega
  | l :: rest =>
    cases Nat.lt_or_ge node (place l source target next).next with
    | inl inFirst => exact place_reaches each.1 h.left ge inFirst
    | inr inRest => exact placeBranches_reaches each.2 h.right inRest lt

end

end Covers

section Bounds

variable {first f : Fragment} {second : Nat → Fragment} {source target next : Nat}
variable {bound : Nat → SeriesSet Event} {final : SeriesSet Event}

/--
Whether bounds on the series from the nodes to a target respect the edges of a fragment. The series
end when they arrive at the target; `final` bounds what is counted there.
-/
def Respects (bound : Nat → SeriesSet Event) (f : Fragment) (target : Nat)
    (final : SeriesSet Event) : Prop :=
  ∀ e ∈ f.edges,
    labelSeries e.label * (if e.target = target then final else bound e.target) ≤ bound e.source

def Extends (bound : Nat → SeriesSet Event) (f : Fragment) (target next : Nat)
    (final : SeriesSet Event) : Prop :=
  ∃ bound', (∀ q < next, bound' q = bound q) ∧ Respects bound' f target final

theorem extends_edge {label : Option Event} (h : labelSeries label * final ≤ bound source) :
    Extends bound (.edge source label target next) target next final := by
  refine ⟨bound, fun _ _ => rfl, ?_⟩
  intro e mem
  rw [Fragment.edges_edge, List.mem_singleton] at mem
  subst mem
  simpa using h

theorem Extends.andThen (h : Extends bound first target next final)
    (inside : ∀ e ∈ first.edges, e.source < first.next ∧ e.target < first.next)
    (le : next ≤ first.next)
    (h' : ∀ bound', (∀ q < next, bound' q = bound q) →
      Extends bound' (second first.next) target first.next final) :
    Extends bound (first.andThen second) target next final := by
  obtain ⟨bound', agree, respects⟩ := h
  obtain ⟨bound'', agree', respects'⟩ := h' bound' agree
  refine ⟨bound'', ?_, ?_⟩
  . intro q lt
    rw [agree' q (by omega), agree q lt]
  . intro e mem
    cases Fragment.mem_andThen.1 mem with
    | inl mem =>
      obtain ⟨source, target⟩ := inside e mem
      rw [agree' _ source, agree' _ target]
      exact respects e mem
    | inr mem => exact respects' e mem

theorem Fragment.Within.inside (h : f.Within source target next) (hsource : source < next)
    (htarget : target < next) : ∀ e ∈ f.edges, e.source < f.next ∧ e.target < f.next := by
  intro e mem
  have le := h.next_le
  have source := h.source_mem e mem
  have target := h.target_mem e mem
  omega

theorem Extends.retarget {middle : Nat} (h : Extends bound f middle next (bound middle))
    (lt : middle < next) (elsewhere : ∀ e ∈ f.edges, e.target ≠ target) :
    Extends bound f target next final := by
  obtain ⟨bound', agree, respects⟩ := h
  refine ⟨bound', agree, ?_⟩
  intro e mem
  have edge := respects e mem
  rw [if_neg (elsewhere e mem)]
  split at edge
  . next arrived =>
    rw [arrived, agree middle lt]
    exact edge
  . exact edge

theorem Extends.mono {before : Nat → SeriesSet Event} {next' : Nat}
    (h : Extends bound f target next' final) (le : next ≤ next')
    (same : ∀ q < next, bound q = before q) : Extends before f target next final := by
  obtain ⟨bound', agree, respects⟩ := h
  refine ⟨bound', ?_, respects⟩
  intro q lt
  rw [agree q (by omega), same q lt]

end Bounds

mutual

theorem place_extends (l : Language) {source target next : Nat} {bound : Nat → SeriesSet Event}
    {final : SeriesSet Event} (hsource : source < next) (htarget : target < next)
    (across : l.flow.across * final ≤ bound source)
    (around : l.flow.around * final ≤ bound target) :
    Extends bound (place l source target next) target next final := by
  cases l with
  | event e => exact extends_edge across
  | sequence parts => exact placeParts_extends parts hsource htarget across around
  | either branches => exact placeBranches_extends branches hsource htarget across around
  | optional body =>
    simp only [Language.flow, add_mul, add_le_iff] at across around
    have inside := (@Fragment.within_edge source target next none).inside hsource htarget
    refine (extends_edge across.1).andThen inside (le_refl _) ?_
    intro bound' agree
    apply place_extends body hsource htarget
    . rw [agree source hsource]
      exact across.2
    . rw [agree target htarget]
      exact around
  | zeroOrMore body =>
    simp only [Language.flow, add_mul, add_le_iff] at across around
    have inside := (@Fragment.within_edge source target next none).inside hsource htarget
    refine (extends_edge across).andThen inside (le_refl _) ?_
    intro bound' agree
    -- the body stands between the target and itself, so that all of its flow goes around
    apply place_extends body htarget htarget
    . rw [agree target htarget]
      exact around.1
    . rw [agree target htarget]
      exact around.2
  | oneOrMore body =>
    simp only [Language.flow, add_mul, add_le_iff] at across around
    have within := place_within body source target next
    have le := within.next_le
    refine (place_extends body hsource htarget across around.2).andThen
      (within.inside hsource htarget) le ?_
    intro bound' agree
    apply place_extends body (Nat.lt_of_lt_of_le htarget le) (Nat.lt_of_lt_of_le htarget le)
    . rw [agree target htarget]
      exact around.1
    . rw [agree target htarget]
      exact around.2

theorem placeParts_extends (parts : List Language) {source target next : Nat}
    {bound : Nat → SeriesSet Event} {final : SeriesSet Event} (hsource : source < next)
    (htarget : target < next)
    (across : (Language.flowOfParts parts).across * final ≤ bound source)
    (around : (Language.flowOfParts parts).around * final ≤ bound target) :
    Extends bound (placeParts parts source target next) target next final := by
  match parts with
  | [] => exact extends_edge across
  | [l] => exact place_extends l hsource htarget across around
  | l :: part :: rest =>
    rw [Language.flowOfParts] at across around
    . have within := place_within l source next (next + 1)
      have le := within.next_le
      -- the fresh node is bounded by the loops there and the series of the other parts
      let middle := l.flow.around∗ * ((Language.flowOfParts (part :: rest)).across * final)
      let bound' := Function.update bound next middle
      have atFresh : bound' next = middle := Function.update_self next middle bound
      have old : ∀ q < next, bound' q = bound q := by
        intro q lt
        exact Function.update_of_ne (Nat.ne_of_lt lt) middle bound
      have arrived :
          Extends bound' (place l source next (next + 1)) next (next + 1) (bound' next) := by
        apply place_extends l (Nat.lt_succ_of_lt hsource) (Nat.lt_succ_self next)
        . rw [atFresh, old source hsource, ← mul_assoc, ← mul_assoc]
          exact across
        . rw [atFresh, ← mul_assoc]
          exact mul_le_mul' mul_kstar_le_kstar le_rfl
      have first : Extends bound' (place l source next (next + 1)) target (next + 1) final := by
        apply arrived.retarget (Nat.lt_succ_self next)
        intro e mem
        have := within.target_mem e mem
        omega
      rw [placeParts]
      . refine (first.andThen ?_ le ?_).mono (Nat.le_succ next) old
        . exact within.inside (Nat.lt_succ_of_lt hsource) (Nat.lt_succ_self next)
        . intro bound'' agree
          apply placeParts_extends (part :: rest)
          . omega
          . omega
          . rw [agree next (Nat.lt_succ_self next), atFresh]
            exact le_mul_of_one_le_left' one_le_kstar
          . rw [agree target (Nat.lt_succ_of_lt htarget), old target htarget]
            exact around
      . simp
    . simp
    . simp

theorem placeBranches_extends (branches : List Language) {source target next : Nat}
    {bound : Nat → SeriesSet Event} {final : SeriesSet Event} (hsource : source < next)
    (htarget : target < next)
    (across : (Language.flowOfBranches branches).across * final ≤ bound source)
    (around : (Language.flowOfBranches branches).around * final ≤ bound target) :
    Extends bound (placeBranches branches source target next) target next final := by
  match branches with
  | [] => exact ⟨bound, fun _ _ => rfl, fun e mem => absurd mem (List.not_mem_nil)⟩
  | l :: rest =>
    simp only [Language.flowOfBranches, add_mul, add_le_iff] at across around
    have within := place_within l source target next
    have le := within.next_le
    refine (place_extends l hsource htarget across.1 around.1).andThen
      (within.inside hsource htarget) le ?_
    intro bound' agree
    apply placeBranches_extends rest (Nat.lt_of_lt_of_le hsource le) (Nat.lt_of_lt_of_le htarget le)
    . rw [agree source hsource]
      exact across.2
    . rw [agree target htarget]
      exact around.2

end

section Compile

variable {l : Language} {w : List Event}

theorem has_compile (l : Language) : (compile l).Has (place l 0 1 2) := by
  intro e mem
  exact hasEdge_compile_iff.2 mem

theorem exists_bound (l : Language) (final : SeriesSet Event) :
    ∃ bound : Nat → SeriesSet Event,
      bound 0 = l.flow.across * final ∧ bound 1 = l.flow.around * final ∧
        ∀ {p q label}, (compile l).HasEdge p label q →
          labelSeries label * (if q = 1 then final else bound q) ≤ bound p := by
  let bound (q : Nat) := if q = 0 then l.flow.across * final else l.flow.around * final
  have ends : Extends bound (place l 0 1 2) 1 2 final :=
    place_extends l (by omega) (by omega) le_rfl le_rfl
  obtain ⟨bound', agree, respects⟩ := ends
  refine ⟨bound', agree 0 (by omega), agree 1 (by omega), ?_⟩
  intro p q label edge
  exact respects _ (hasEdge_compile_iff.1 edge)

theorem labelSeries_mul_mem {S T : SeriesSet Event} {label : Option Event}
    (h : labelSeries label * S ≤ T) (mem : w ∈ S) : label.toList ++ w ∈ T := by
  apply h
  apply Language.append_mem_mul _ mem
  cases label <;> exact rfl

theorem mem_of_path {S : Nat → SeriesSet Event} (final : [] ∈ S r)
    (step : ∀ {p q label}, a.HasEdge p label q → labelSeries label * S q ≤ S p)
    (path : a.Path p w r) : w ∈ S p := by
  induction path with
  | done => exact final
  | silent edge _ ih => exact labelSeries_mul_mem (step edge) (ih final)
  | event edge _ ih => exact labelSeries_mul_mem (step edge) (ih final)

theorem paths_compile (l : Language) : (compile l).paths 0 1 = l.flow.total := by
  apply le_antisymm
  . obtain ⟨bound, start, accept, respects⟩ := exists_bound l l.flow.around∗
    -- once a series has arrived at the end, only loops are still to come
    let S (q : Nat) := if q = 1 then l.flow.around∗ else bound q
    have le : ∀ q, bound q ≤ S q := by
      intro q
      dsimp only [S]
      split
      . next same =>
        rw [same, accept]
        exact mul_kstar_le_kstar
      . exact le_rfl
    have final : [] ∈ S 1 := Language.nil_mem_kstar _
    intro w path
    have mem : w ∈ S 0 := mem_of_path final (fun edge => (respects edge).trans (le _)) path
    have startSet : S 0 = l.flow.total := start
    exact startSet ▸ mem
  . exact (place_carries l (has_compile l)).total_le

theorem silentCycle_accept_iff (l : Language) :
    TransGen (compile l).Silent 1 1 ↔ [] ∈ l.flow.around := by
  constructor
  . intro cycle
    -- at the end nothing but the empty series is counted
    obtain ⟨bound, _, accept, respects⟩ := exists_bound l 1
    have nil_mem : ∀ {p}, TransGen (compile l).Silent p 1 → [] ∈ bound p := by
      intro p path
      induction path using TransGen.head_induction_on with
      | single edge => exact labelSeries_mul_mem (respects edge) rfl
      | @head p q edge _ ih =>
        have next : [] ∈ if q = 1 then 1 else bound q := by
          split
          . exact rfl
          . exact ih
        exact labelSeries_mul_mem (respects edge) next
    rw [mul_one] at accept
    exact accept ▸ nil_mem cycle
  . intro mem
    exact transGen_of_nil_mem_trips ((place_carries l (has_compile l)).around mem)

theorem exists_path_accept {node : Nat} (each : l.Each (· ≠ .either []))
    (inside : node < (compile l).nodes) : ∃ w, (compile l).Path node w 1 := by
  rw [nodes_compile] at inside
  cases Nat.lt_or_ge node 2 with
  | inl old =>
    obtain rfl | rfl : node = 0 ∨ node = 1 := by omega
    . exact exists_path_across each (has_compile l)
    . exact ⟨[], .done 1⟩
  | inr fresh => exact place_reaches each (has_compile l) fresh inside

theorem hasEdge_accept_iff {label : Option Event} :
    (∃ q, (compile l).HasEdge 1 label q) ↔ ∃ body ∈ l.loops, label ∈ body.heads := by
  simp only [hasEdge_compile_iff]
  have leaves := place_leaves_iff l 0 1 label (show 1 < 2 by omega)
  unfold Fragment.Leaves at leaves
  rw [leaves]
  simp

theorem rests_accept_iff (each : l.Each (· ≠ .either [])) :
    (compile l).Rests 1 ↔ l.hidesEnd = false := by
  unfold Rests
  rw [Language.hidesEnd_eq_false_iff]
  apply or_congr
  . constructor
    . intro none
      rw [List.eq_nil_iff_forall_not_mem]
      intro body mem
      -- without an empty choice in it, the body begins with something
      have each' : body.Each (· ≠ .either []) := Language.eachOf_iff.1 each.loops body mem
      obtain ⟨label, head⟩ := List.exists_mem_of_ne_nil _ (Language.heads_ne_nil each')
      obtain ⟨q, edge⟩ := hasEdge_accept_iff.2 ⟨body, mem, head⟩
      exact none label q edge
    . intro none label q edge
      obtain ⟨body, mem, _⟩ := hasEdge_accept_iff.1 ⟨q, edge⟩
      rw [none] at mem
      exact absurd mem List.not_mem_nil
  . apply or_congr
    . simp only [hasEdge_accept_iff]
      constructor
      . rintro ⟨e, body, mem, head⟩
        exact ⟨body, mem, e, head⟩
      . rintro ⟨body, mem, e, head⟩
        exact ⟨e, body, mem, head⟩
    . simp only [silentCycle_accept_iff, Language.mem_around_iff, Language.nil_mem_across_iff]

end Compile

end Automaton

end Interaction
