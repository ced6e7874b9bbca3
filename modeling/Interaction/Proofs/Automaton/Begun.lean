import Interaction.Proofs.Automaton.Flow
import Interaction.Proofs.Language.Begun

/-!
This module contains which series the paths from the start of a compiled language have, wherever
they end: the legal ones. As for the flow, one direction builds paths, and the other one labels
nodes with sets of series.
-/

namespace Interaction

namespace Automaton

open Computability

variable {a : Automaton} {p q : Nat}

def onward (a : Automaton) (p : Nat) : SeriesSet Event := {w : List Event | ∃ q, a.Path p w q}

theorem one_le_onward : 1 ≤ a.onward p := by
  intro w mem
  obtain rfl : w = [] := mem
  exact ⟨p, .done p⟩

theorem paths_mul_onward : a.paths p q * a.onward q ≤ a.onward p := by
  rintro _ ⟨v, first, w, ⟨r, second⟩, rfl⟩
  exact ⟨r, Path.append first second⟩

section Begins

structure Begins (a : Automaton) (f : Language.Flow) (source target : Nat) : Prop where
  across : f.across ≤ a.onward source
  around : f.around ≤ a.onward target

mutual

theorem place_begins (l : Language) {source target next : Nat}
    (h : a.Has (place l source target next)) : a.Begins l.begun source target := by
  cases l with
  | event e => exact ⟨one_le_onward, zero_le⟩
  | sequence parts => exact placeParts_begins parts h
  | either branches => exact placeBranches_begins branches h
  | optional body => exact place_begins body h.right
  | zeroOrMore body =>
    have ih := place_begins body h.right
    exact ⟨one_le_onward, add_le ih.across ih.around⟩
  | oneOrMore body =>
    have ih := place_begins body h.left
    have again := place_begins body h.right
    exact ⟨ih.across, add_le again.across again.around⟩

theorem placeParts_begins (parts : List Language) {source target next : Nat}
    (h : a.Has (placeParts parts source target next)) :
    a.Begins (Language.begunOfParts parts) source target := by
  match parts with
  | [] => exact ⟨one_le_onward, zero_le⟩
  | [l] => exact place_begins l h
  | l :: part :: rest =>
    have first := place_begins l h.left
    have others := placeParts_begins (part :: rest) h.right
    have whole := (place_carries l h.left).total_le
    refine ⟨add_le first.across ?_, others.around⟩
    calc
      l.flow.total * (l.begun.around + (Language.begunOfParts (part :: rest)).across)
        ≤ a.paths source next * a.onward next :=
          mul_le_mul' whole (add_le first.around others.across)
      _ ≤ a.onward source := paths_mul_onward

theorem placeBranches_begins (branches : List Language) {source target next : Nat}
    (h : a.Has (placeBranches branches source target next)) :
    a.Begins (Language.begunOfBranches branches) source target := by
  match branches with
  | [] => exact ⟨one_le_onward, zero_le⟩
  | l :: rest =>
    have first := place_begins l h.left
    have others := placeBranches_begins rest h.right
    exact ⟨add_le first.across others.across, add_le first.around others.around⟩

end

end Begins

section Admits

variable {first f : Fragment} {second : Nat → Fragment} {source target next : Nat}
variable {bound : Nat → SeriesSet Event}

structure Admits (bound : Nat → SeriesSet Event) (f : Fragment) : Prop where
  stay : ∀ q, 1 ≤ bound q
  step : ∀ e ∈ f.edges, labelSeries e.label * bound e.target ≤ bound e.source

def Spreads (bound : Nat → SeriesSet Event) (f : Fragment) (next : Nat) : Prop :=
  ∃ bound', (∀ q < next, bound' q = bound q) ∧ Admits bound' f

theorem spreads_edge {label : Option Event} (stay : ∀ q, 1 ≤ bound q)
    (step : labelSeries label * bound target ≤ bound source) :
    Spreads bound (.edge source label target next) next := by
  refine ⟨bound, fun _ _ => rfl, stay, ?_⟩
  intro e mem
  rw [Fragment.edges_edge, List.mem_singleton] at mem
  subst mem
  exact step

theorem Spreads.andThen (h : Spreads bound first next)
    (inside : ∀ e ∈ first.edges, e.source < first.next ∧ e.target < first.next)
    (le : next ≤ first.next)
    (h' : ∀ bound', (∀ q < next, bound' q = bound q) → (∀ q, 1 ≤ bound' q) →
      Spreads bound' (second first.next) first.next) :
    Spreads bound (first.andThen second) next := by
  obtain ⟨bound', agree, admits⟩ := h
  obtain ⟨bound'', agree', admits'⟩ := h' bound' agree admits.stay
  refine ⟨bound'', ?_, admits'.stay, ?_⟩
  . intro q lt
    rw [agree' q (by omega), agree q lt]
  . intro e mem
    cases Fragment.mem_andThen.1 mem with
    | inl mem =>
      obtain ⟨source, target⟩ := inside e mem
      rw [agree' _ source, agree' _ target]
      exact admits.step e mem
    | inr mem => exact admits'.step e mem

theorem Spreads.mono {before : Nat → SeriesSet Event} {next' : Nat} (h : Spreads bound f next')
    (le : next ≤ next') (same : ∀ q < next, bound q = before q) : Spreads before f next := by
  obtain ⟨bound', agree, admits⟩ := h
  refine ⟨bound', ?_, admits⟩
  intro q lt
  rw [agree q (by omega), same q lt]

/-- Whether bounds at two nodes leave room for what is begun and completed between them. -/
structure Fits (begun whole : Language.Flow) (atSource atTarget : SeriesSet Event) : Prop where
  begunAcross : begun.across ≤ atSource
  across : whole.across * atTarget ≤ atSource
  begunAround : begun.around ≤ atTarget
  around : whole.around * atTarget ≤ atTarget

theorem Fits.split {begun whole begun' whole' : Language.Flow} {S T : SeriesSet Event}
    (h : Fits ⟨begun.across + whole.total * (begun.around + begun'.across), begun'.around⟩
      ⟨whole.total * whole'.across, whole'.around⟩ S T) :
    ∃ M, Fits begun whole S M ∧ Fits begun' whole' M T := by
  obtain ⟨begunAcross, across, begunAround, around⟩ := h
  simp only [add_le_iff] at begunAcross
  let inside := begun.around + begun'.across + whole'.across * T
  have whole_le : whole.total * inside ≤ S := by
    simp only [inside, mul_add, add_le_iff] at begunAcross ⊢
    rw [← mul_assoc]
    exact ⟨begunAcross.2, across⟩
  have inside_le : inside ≤ whole.around∗ * inside := le_mul_of_one_le_left' one_le_kstar
  refine ⟨whole.around∗ * inside, ⟨begunAcross.1, ?_, ?_, ?_⟩, ⟨?_, ?_, begunAround, around⟩⟩
  . rw [← mul_assoc]
    exact whole_le
  . exact le_trans (le_self_add.trans le_self_add) inside_le
  . rw [← mul_assoc]
    exact mul_le_mul' mul_kstar_le_kstar le_rfl
  . exact le_trans (le_add_self.trans le_self_add) inside_le
  . exact le_trans le_add_self inside_le

mutual

theorem place_spreads (l : Language) {source target next : Nat} {bound : Nat → SeriesSet Event}
    (hsource : source < next) (htarget : target < next) (stay : ∀ q, 1 ≤ bound q)
    (fits : Fits l.begun l.flow (bound source) (bound target)) :
    Spreads bound (place l source target next) next := by
  have inside := (@Fragment.within_edge source target next none).inside hsource htarget
  cases l with
  | event e => exact spreads_edge stay fits.across
  | sequence parts => exact placeParts_spreads parts hsource htarget stay fits
  | either branches => exact placeBranches_spreads branches hsource htarget stay fits
  | optional body =>
    obtain ⟨begunAcross, across, begunAround, around⟩ := fits
    simp only [Language.flow, Language.begun, add_mul, add_le_iff] at *
    have edge : Spreads bound (.edge source none target next) next := spreads_edge stay across.1
    refine edge.andThen inside (le_refl _) ?_
    intro bound' agree stay'
    apply place_spreads body hsource htarget stay'
    rw [agree source hsource, agree target htarget]
    exact ⟨begunAcross, across.2, begunAround, around⟩
  | zeroOrMore body =>
    obtain ⟨_, across, begunAround, around⟩ := fits
    simp only [Language.flow, Language.begun, add_mul, add_le_iff] at *
    have edge : Spreads bound (.edge source none target next) next := spreads_edge stay across
    refine edge.andThen inside (le_refl _) ?_
    intro bound' agree stay'
    apply place_spreads body htarget htarget stay'
    rw [agree target htarget]
    exact ⟨begunAround.1, around.1, begunAround.2, around.2⟩
  | oneOrMore body =>
    obtain ⟨begunAcross, across, begunAround, around⟩ := fits
    simp only [Language.flow, Language.begun, add_mul, add_le_iff] at *
    have within := place_within body source target next
    have htarget' := Nat.lt_of_lt_of_le htarget within.next_le
    have first := place_spreads body hsource htarget stay
      ⟨begunAcross, across, begunAround.2, around.2⟩
    refine first.andThen (within.inside hsource htarget) within.next_le ?_
    intro bound' agree stay'
    apply place_spreads body htarget' htarget' stay'
    rw [agree target htarget]
    exact ⟨begunAround.1, around.1, begunAround.2, around.2⟩

theorem placeParts_spreads (parts : List Language) {source target next : Nat}
    {bound : Nat → SeriesSet Event} (hsource : source < next) (htarget : target < next)
    (stay : ∀ q, 1 ≤ bound q)
    (fits : Fits (Language.begunOfParts parts) (Language.flowOfParts parts) (bound source)
      (bound target)) :
    Spreads bound (placeParts parts source target next) next := by
  match parts with
  | [] => exact spreads_edge stay fits.across
  | [l] => exact place_spreads l hsource htarget stay fits
  | l :: part :: rest =>
    obtain ⟨middle, firstFits, othersFit⟩ := Fits.split fits
    have within := place_within l source next (next + 1)
    have le := within.next_le
    let bound' := Function.update bound next middle
    have atFresh : bound' next = middle := Function.update_self next middle bound
    have elsewhere : ∀ q ≠ next, bound' q = bound q := by
      intro q other
      exact Function.update_of_ne other middle bound
    have old : ∀ q < next, bound' q = bound q := fun q lt => elsewhere q (Nat.ne_of_lt lt)
    have stay' : ∀ q, 1 ≤ bound' q := by
      intro q
      by_cases fresh : q = next
      . rw [fresh, atFresh]
        exact (Language.one_le_begunOfParts (part :: rest)).trans othersFit.begunAcross
      . rw [elsewhere q fresh]
        exact stay q
    have first : Spreads bound' (place l source next (next + 1)) (next + 1) := by
      apply place_spreads l (Nat.lt_succ_of_lt hsource) (Nat.lt_succ_self next) stay'
      rw [atFresh, old source hsource]
      exact firstFits
    rw [placeParts]
    . refine (first.andThen ?_ le ?_).mono (Nat.le_succ next) old
      . exact within.inside (Nat.lt_succ_of_lt hsource) (Nat.lt_succ_self next)
      . intro bound'' agree stay''
        apply placeParts_spreads (part :: rest) (by omega) (by omega) stay''
        rw [agree next (Nat.lt_succ_self next), atFresh, agree target (Nat.lt_succ_of_lt htarget),
          old target htarget]
        exact othersFit
    . simp

theorem placeBranches_spreads (branches : List Language) {source target next : Nat}
    {bound : Nat → SeriesSet Event} (hsource : source < next) (htarget : target < next)
    (stay : ∀ q, 1 ≤ bound q)
    (fits : Fits (Language.begunOfBranches branches) (Language.flowOfBranches branches)
      (bound source) (bound target)) :
    Spreads bound (placeBranches branches source target next) next := by
  match branches with
  | [] => exact ⟨bound, fun _ _ => rfl, stay, fun e mem => absurd mem (List.not_mem_nil)⟩
  | l :: rest =>
    obtain ⟨begunAcross, across, begunAround, around⟩ := fits
    simp only [Language.flowOfBranches, Language.begunOfBranches, add_mul, add_le_iff] at *
    have within := place_within l source target next
    have le := within.next_le
    have first := place_spreads l hsource htarget stay
      ⟨begunAcross.1, across.1, begunAround.1, around.1⟩
    refine first.andThen (within.inside hsource htarget) le ?_
    intro bound' agree stay'
    apply placeBranches_spreads rest (Nat.lt_of_lt_of_le hsource le)
      (Nat.lt_of_lt_of_le htarget le) stay'
    rw [agree source hsource, agree target htarget]
    exact ⟨begunAcross.2, across.2, begunAround.2, around.2⟩

end

end Admits

section Compile

variable {l : Language} {w : List Event}

theorem exists_admits (l : Language) :
    ∃ bound : Nat → SeriesSet Event, bound 0 = l.legal ∧ Admits bound (place l 0 1 2) := by
  let atTarget : SeriesSet Event := l.flow.around∗ * (1 + l.begun.around)
  let bound (q : Nat) := if q = 0 then l.legal else atTarget
  have stay : ∀ q, 1 ≤ bound q := by
    intro q
    dsimp only [bound]
    split
    . exact (Language.one_le_begun l).trans le_self_add
    . exact one_le_mul one_le_kstar le_self_add
  have ends : Spreads bound (place l 0 1 2) 2 := by
    apply place_spreads l (by omega) (by omega) stay
    refine ⟨le_self_add, ?_, ?_, ?_⟩
    . change l.flow.across * (l.flow.around∗ * (1 + l.begun.around)) ≤ l.legal
      rw [← mul_assoc]
      exact le_add_self
    . exact le_trans le_add_self (le_mul_of_one_le_left' one_le_kstar)
    . change l.flow.around * (l.flow.around∗ * (1 + l.begun.around)) ≤ atTarget
      rw [← mul_assoc]
      exact mul_le_mul' mul_kstar_le_kstar le_rfl
  obtain ⟨bound', agree, admits⟩ := ends
  exact ⟨bound', agree 0 (by omega), admits⟩

theorem onward_compile (l : Language) : (compile l).onward 0 = l.legal := by
  apply le_antisymm
  . obtain ⟨bound, start, admits⟩ := exists_admits l
    rintro w ⟨q, path⟩
    have mem : w ∈ bound 0 := by
      apply mem_of_path (admits.stay q rfl) _ path
      intro p q label edge
      exact admits.step _ (hasEdge_compile_iff.1 edge)
    exact start ▸ mem
  . have carries := place_carries l (has_compile l)
    have begins := place_begins l (has_compile l)
    apply add_le begins.across
    calc
      l.flow.total * (1 + l.begun.around)
        ≤ (compile l).paths 0 1 * (compile l).onward 1 :=
          mul_le_mul' carries.total_le (add_le one_le_onward begins.around)
      _ ≤ (compile l).onward 0 := paths_mul_onward

end Compile

end Automaton

end Interaction
