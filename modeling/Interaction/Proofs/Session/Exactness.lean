import Interaction.Proofs.Language.Tight
import Interaction.Proofs.Session.Completeness

/-!
This module contains where sessions are as strict as the ordinary meaning of a language: on tight
languages, and on choices between branches that do not end with a repetition. The branches of other
choices share the loops at their end.
-/

namespace Interaction

namespace Session

open Automaton Computability

variable {l : Language} {ls : List Language} {w : List Event}

/--
On a tight language that was read from a text, a session is complete only after the series of the
language, and finds its events illegal exactly if they begin no series of the language.
-/
theorem verdict_exact_of_tight (text : String) (l : Language)
    (h : Language.parse text = .ok l) (tight : l.Each Language.Tight) (w : List Event) :
    ((after l w).verdict = .enough → w ∈ l.series) ∧
    ((after l w).verdict = .unexpected ↔ ¬∃ u ∈ l.series, w <+: u) := by
  have total := Language.total_eq_series tight
  constructor
  . intro enough
    rw [verdict_after_eq_enough_iff, total] at enough
    exact enough.1
  . rw [verdict_after_eq_unexpected_iff, exists_path_iff (each_ne_either_nil_of_parse h), total]

theorem verdict_exact_of_tight_sequence :
    (after (.sequence [.zeroOrMore (.output "a"), .output "b"])
      [.output "b", .output "b"]).verdict = .unexpected := by
  have tidy : (Language.sequence [.zeroOrMore (.output "a"), .output "b"]).Each
      Language.Tidy := by
    simp [Language.Each, Language.EachOf, Language.Tidy, Language.output]
    decide
  have tight : (Language.sequence [.zeroOrMore (.output "a"), .output "b"]).Each
      Language.Tight := by
    simp [Language.Each, Language.EachOf, Language.Tight, Language.output, Language.repeatsAtEnd]
  apply (verdict_exact_of_tight _ _ (Language.parse_render_of_tidy tidy) tight _).2.2
  rintro ⟨u, mem, le⟩
  simp only [Language.series, Language.seriesOfParts, Language.output, mul_one,
    Language.mem_mul, Language.mem_kstar] at mem
  obtain ⟨_, ⟨rounds, rfl, turns⟩, _, rfl, rfl⟩ := mem
  cases rounds with
  | nil => exact absurd le (by decide)
  | cons first rest =>
    obtain rfl : first = [.output "a"] := turns first List.mem_cons_self
    rw [List.flatten_cons, List.append_assoc] at le
    exact absurd (List.cons_prefix_cons.1 le).1 (by decide)

theorem each_ne_either_nil_of_branches (some : ls ≠ [])
    (read : ∀ l ∈ ls, ∃ text, Language.parse text = .ok l) :
    (Language.either ls).Each (· ≠ .either []) := by
  refine ⟨by simpa using some, Language.eachOf_iff.2 ?_⟩
  intro l mem
  obtain ⟨text, h⟩ := read l mem
  exact each_ne_either_nil_of_parse h

theorem verdict_after_eq_enough_iff_of_each (each : l.Each (· ≠ .either [])) :
    (after l w).verdict = .enough ↔ w ∈ l.flow.total ∧ l.hidesEnd = false := by
  rw [verdict_after_eq_enough_iff, rests_accept_iff each]

/--
A way through one branch of a choice, and then any number of rounds on the loops at the ends of its
branches.
-/
def Through (ls : List Language) (w : List Event) : Prop :=
  ∃ v rounds, w = v ++ List.flatten rounds ∧ (∃ l ∈ ls, v ∈ l.flow.across) ∧
    ∀ u ∈ rounds, ∃ l ∈ ls, u ∈ l.flow.around

theorem mem_total_either_iff : w ∈ (Language.either ls).flow.total ↔ Through ls w := by
  have across : (Language.either ls).flow.across = (Language.flowOfBranches ls).across := rfl
  have around : (Language.either ls).flow.around = (Language.flowOfBranches ls).around := rfl
  unfold Language.Flow.total Through
  simp only [Language.mem_mul, Language.mem_kstar, across, around,
    Language.mem_acrossOfBranches_iff, Language.mem_aroundOfBranches_iff_exists]
  constructor
  . rintro ⟨v, first, _, ⟨rounds, rfl, loops⟩, rfl⟩
    exact ⟨v, rounds, rfl, first, loops⟩
  . rintro ⟨v, rounds, rfl, first, loops⟩
    exact ⟨v, first, _, ⟨rounds, rfl, loops⟩, rfl⟩

theorem through_of_mem_total (mem : l ∈ ls) (total : w ∈ l.flow.total) : Through ls w := by
  obtain ⟨v, first, _, loops, rfl⟩ := Language.mem_mul.1 total
  obtain ⟨rounds, rfl, turns⟩ := Language.mem_kstar.1 loops
  exact ⟨v, rounds, rfl, ⟨l, mem, first⟩, fun u turn => ⟨l, mem, turns u turn⟩⟩

theorem through_iff_of_not_repeatsAtEnd (none : ∀ l ∈ ls, l.repeatsAtEnd = false) :
    Through ls w ↔ ∃ l ∈ ls, w ∈ l.flow.total := by
  constructor
  . rintro ⟨v, rounds, rfl, ⟨l, mem, first⟩, turns⟩
    -- there are no loops for a round
    have still : rounds = [] := by
      rw [List.eq_nil_iff_forall_not_mem]
      intro u turn
      obtain ⟨m, mem, loop⟩ := turns u turn
      rw [Language.around_eq_zero (none m mem)] at loop
      exact Language.notMem_zero u loop
    refine ⟨l, mem, ?_⟩
    rw [still, List.flatten_nil, List.append_nil, Language.total_eq_across (none l mem)]
    exact first
  . rintro ⟨l, mem, total⟩
    exact through_of_mem_total mem total

theorem verdict_after_either_singleton :
    (after (.either [l]) w).verdict = (after l w).verdict := by
  have same : compile (.either [l]) = compile l := by
    simp [compile, place, placeBranches, Fragment.andThen]
  unfold after
  rw [same]

/--
A session on a choice between languages that were read from texts is complete exactly when its
events lead through one branch and then round the loops at the ends of the branches, unless the
choice hides its end. A session on one of the branches is complete exactly when the events lead
through that branch and round its own loops, unless the branch hides its end. So a choice that does
not hide its end is complete when a branch is, and a choice of one branch, or of branches that do
not end with repetitions, is complete exactly when a branch is.
-/
theorem enough_after_either (ls : List Language) (some : ls ≠ [])
    (read : ∀ l ∈ ls, ∃ text, Language.parse text = .ok l) (w : List Event) :
    ((after (.either ls) w).verdict = .enough ↔
      Through ls w ∧ (Language.either ls).hidesEnd = false) ∧
    (∀ l ∈ ls, (after l w).verdict = .enough ↔ w ∈ l.flow.total ∧ l.hidesEnd = false) ∧
    ((Language.either ls).hidesEnd = false →
      ∀ l ∈ ls, (after l w).verdict = .enough → (after (.either ls) w).verdict = .enough) ∧
    (ls.length = 1 ∨ (∀ l ∈ ls, l.repeatsAtEnd = false) →
      ((after (.either ls) w).verdict = .enough ↔ ∃ l ∈ ls, (after l w).verdict = .enough)) := by
  have each := each_ne_either_nil_of_branches some read
  have whole : (after (.either ls) w).verdict = .enough ↔
      Through ls w ∧ (Language.either ls).hidesEnd = false := by
    rw [verdict_after_eq_enough_iff_of_each each, mem_total_either_iff]
  have branch : ∀ l ∈ ls,
      (after l w).verdict = .enough ↔ w ∈ l.flow.total ∧ l.hidesEnd = false :=
    fun l mem => verdict_after_eq_enough_iff_of_each (Language.eachOf_iff.1 each.2 l mem)
  refine ⟨whole, branch, ?_, ?_⟩
  . intro shows l mem enough
    exact whole.2 ⟨through_of_mem_total mem ((branch l mem).1 enough).1, shows⟩
  . rintro (single | none)
    . obtain ⟨l, rfl⟩ := List.length_eq_one_iff.1 single
      simp [verdict_after_either_singleton]
    . have shows : (Language.either ls).hidesEnd = false :=
        Language.hidesEnd_eq_false (Language.anyRepeatsAtEnd_eq_false_iff.2 none)
      rw [whole, and_iff_left shows, through_iff_of_not_repeatsAtEnd none]
      apply exists_congr
      intro l
      apply and_congr_right
      intro mem
      rw [branch l mem, and_iff_left (Language.hidesEnd_eq_false (none l mem))]

theorem exists_parse_of_tidy (tidy : ∀ l ∈ ls, l.Each Language.Tidy) :
    ∀ l ∈ ls, ∃ text, Language.parse text = .ok l :=
  fun l mem => ⟨_, Language.parse_render_of_tidy (tidy l mem)⟩

theorem enough_after_either_optional :
    (after (.either [.output "a", .optional (.output "b")]) [.output "b"]).verdict = .enough ∧
    (after (.either [.zeroOrMore (.output "a"), .output "b"])
      [.output "b", .output "a"]).verdict = .enough := by
  constructor
  . have tidy : ∀ l ∈ [Language.output "a", .optional (.output "b")], l.Each Language.Tidy := by
      simp [Language.Each, Language.Tidy, Language.output]
      decide
    apply ((enough_after_either _ (by simp) (exists_parse_of_tidy tidy) _).2.2.2
      (.inr (by decide))).2
    refine ⟨_, List.mem_cons_of_mem _ List.mem_cons_self, ?_⟩
    apply verdict_after_of_mem_series (l := .optional (.output "b"))
    . simp [Language.Each, Language.output]
    . decide
    . exact .inr rfl
  . have tidy : ∀ l ∈ [Language.zeroOrMore (.output "a"), .output "b"],
        l.Each Language.Tidy := by
      simp [Language.Each, Language.Tidy, Language.output]
      decide
    apply (enough_after_either _ (by simp) (exists_parse_of_tidy tidy) _).1.2
    refine ⟨⟨[.output "b"], [[.output "a"]], rfl, ?_, ?_⟩, by decide⟩
    . exact ⟨_, List.mem_cons_of_mem _ List.mem_cons_self, rfl⟩
    . intro u turn
      obtain rfl := List.mem_singleton.1 turn
      exact ⟨_, List.mem_cons_self, .inl rfl⟩

theorem verdict_after_repetition_ne_enough {e : Event} (e' : Event) (ne : e' ≠ e)
    (mem : e' ∈ w) :
    (after (.zeroOrMore (.event e)) w).verdict ≠ .enough := by
  have tight : (Language.zeroOrMore (.event e)).Each Language.Tight := by
    simp [Language.Each, Language.Tight, Language.repeatsAtEnd]
  rw [Ne, verdict_after_eq_enough_iff, Language.total_eq_series tight]
  rintro ⟨series, _⟩
  obtain ⟨rounds, rfl, turns⟩ := Language.mem_kstar.1 series
  obtain ⟨u, turn, mem⟩ := List.mem_flatten.1 mem
  obtain rfl : u = [e] := turns u turn
  exact ne (List.mem_singleton.1 mem)

/-- The loops of both branches are open at their common end, so that one may follow the other. -/
theorem enough_after_both_branches :
    Language.parse "out:a *" = .ok (.zeroOrMore (.output "a")) ∧
    Language.parse "out:b *" = .ok (.zeroOrMore (.output "b")) ∧
    (after (.either [.zeroOrMore (.output "a"), .zeroOrMore (.output "b")])
      [.output "a", .output "b"]).verdict = .enough ∧
    (after (.zeroOrMore (.output "a")) [.output "a", .output "b"]).verdict ≠ .enough ∧
    (after (.zeroOrMore (.output "b")) [.output "a", .output "b"]).verdict ≠ .enough := by
  have text : ∀ c, IsName c →
      Language.parse (Language.zeroOrMore (.output c)).render = .ok (.zeroOrMore (.output c)) := by
    intro c isName
    apply Language.parse_render_of_tidy
    exact ⟨True.intro, isName⟩
  refine ⟨text "a" (by decide), text "b" (by decide), ?_, ?_, ?_⟩
  . rw [verdict_after_eq_enough_iff_of_each, mem_total_either_iff]
    . refine ⟨⟨[], [[.output "a"], [.output "b"]], rfl, ⟨_, List.mem_cons_self, rfl⟩, ?_⟩,
        by decide⟩
      intro u turn
      rcases List.mem_cons.1 turn with rfl | turn
      . exact ⟨_, List.mem_cons_self, .inl rfl⟩
      . obtain rfl := List.mem_singleton.1 turn
        exact ⟨_, List.mem_cons_of_mem _ List.mem_cons_self, .inl rfl⟩
    . simp [Language.Each, Language.EachOf, Language.output]
  . exact verdict_after_repetition_ne_enough (.output "b") (by decide) (by simp)
  . exact verdict_after_repetition_ne_enough (.output "a") (by decide) (by simp)

end Session

end Interaction
