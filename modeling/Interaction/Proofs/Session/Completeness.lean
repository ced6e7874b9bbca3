import Interaction.Proofs.Language.RoundTrip
import Interaction.Proofs.Session.Verdict

/-!
This module contains which languages have complete sessions: a session rests at the end of a
language unless the language hides its end, and then a series of the language completes it.
-/

namespace Interaction

namespace Session

open Automaton

variable {l : Language} {w : List Event}

theorem verdict_after_ne_enough (each : l.Each (· ≠ .either [])) (hides : l.hidesEnd = true) :
    (after l w).verdict ≠ .enough := by
  rw [Ne, verdict_after_eq_enough_iff, rests_accept_iff each, hides]
  simp

theorem verdict_after_of_mem_series (each : l.Each (· ≠ .either [])) (shows : l.hidesEnd = false)
    (mem : w ∈ l.series) : (after l w).verdict = .enough := by
  rw [verdict_after_eq_enough_iff, rests_accept_iff each]
  exact ⟨Language.series_le_total l mem, shows⟩

theorem each_ne_either_nil_of_parse {text : String} (h : Language.parse text = .ok l) :
    l.Each (· ≠ .either []) := by
  apply (Language.each_tidy_of_parse h).mono
  rintro m tidy rfl
  simp [Language.Tidy] at tidy

/--
The sessions on a language that was read from a text are complete after all series of the language
if the language does not hide its end. Otherwise, although it has series, no session is ever
complete.
-/
theorem enough_after_series (text : String) (l : Language) (h : Language.parse text = .ok l) :
    ((∀ w ∈ l.series, (after l w).verdict = .enough) ↔ l.hidesEnd = false) ∧
    (l.hidesEnd = true →
      (∃ w, w ∈ l.series) ∧ ∀ w, (after l w).verdict ≠ .enough) := by
  have each := each_ne_either_nil_of_parse h
  have some := Language.exists_mem_series each
  constructor
  . constructor
    . intro enough
      obtain ⟨w, mem⟩ := some
      rw [← Bool.not_eq_true]
      intro hides
      exact verdict_after_ne_enough each hides (enough w mem)
    . intro shows w mem
      exact verdict_after_of_mem_series each shows mem
  . intro hides
    exact ⟨some, fun w => verdict_after_ne_enough each hides⟩

theorem enough_after_series_nested :
    (after (.zeroOrMore (.zeroOrMore (.output "a"))) []).verdict = .enough := by
  have tidy : (Language.zeroOrMore (.zeroOrMore (.output "a"))).Each Language.Tidy := by
    simp [Language.Each, Language.Tidy, Language.output]
    decide
  have enough := enough_after_series _ _ (Language.parse_render_of_tidy tidy)
  apply enough.1.2
  . decide
  . unfold Language.series
    exact Language.nil_mem_kstar _

/-- A repetition that may begin silently, but is never empty, hides its end. -/
theorem not_enough_at_start :
    Language.parse "(out:a * ; out:b) *" =
      .ok (.zeroOrMore (.sequence [.zeroOrMore (.output "a"), .output "b"])) ∧
    [] ∈ (Language.zeroOrMore (.sequence [.zeroOrMore (.output "a"), .output "b"])).series ∧
    (after (.zeroOrMore (.sequence [.zeroOrMore (.output "a"), .output "b"])) []).verdict ≠
      .enough := by
  refine ⟨?_, ?_, ?_⟩
  . have text : "(out:a * ; out:b) *" =
        (Language.zeroOrMore (.sequence [.zeroOrMore (.output "a"), .output "b"])).render := by
      decide
    rw [text]
    apply Language.parse_render_of_tidy
    simp [Language.Each, Language.EachOf, Language.Tidy, Language.output]
    decide
  . unfold Language.series
    exact Language.nil_mem_kstar _
  . apply verdict_after_ne_enough
    . simp [Language.Each, Language.EachOf, Language.output]
    . decide

end Session

end Interaction
