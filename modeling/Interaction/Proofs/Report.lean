import Interaction.Report.Basic

/-!
This module contains which reports a reporter makes: about one span only the first one, so that the
errors about a span count once.
-/

namespace Interaction

namespace Reporter

variable {r r' : Reporter} {report : Report} {severity : Severity} {message : String}
variable {span span' : Span}

inductive Reachable : Reporter → Prop where
  | new (colour warnings : Bool) : Reachable (.new colour warnings)
  | addFile {r : Reporter} (name text : String) : Reachable r → Reachable (r.addFile name text).2
  | addSpan {r r' : Reporter} {severity : Severity} {message : String} {span : Span} :
    Reachable r → r.addSpan? severity message span = some r' → Reachable r'
  | addGeneral {r : Reporter} (severity : Severity) (message : String) :
    Reachable r → Reachable (r.addGeneral severity message)

def Reported (r : Reporter) (span : Span) : Prop := ∃ report ∈ r.reports, report.span = some span

theorem admits_iff : r.admits ⟨severity, message, some span⟩ = true ↔
    (severity = .error ∨ r.warnings = true) ∧ ¬r.Reported span := by
  unfold admits Reported
  simp

theorem warnings_add : (r.add report).warnings = r.warnings := by
  unfold add
  split <;> rfl

theorem files_add : (r.add report).files = r.files := by
  unfold add
  split <;> rfl

theorem reported_of_add (h : (r.add report).Reported span) :
    r.Reported span ∨ r.admits report = true ∧ report.span = some span := by
  unfold add at h
  split at h
  . next admitted =>
    obtain ⟨other, mem, same⟩ := h
    rcases List.mem_append.1 mem with mem | mem
    . exact .inl ⟨other, mem, same⟩
    . rw [List.mem_singleton.1 mem] at same
      exact .inr ⟨admitted, same⟩
  . exact .inl h

theorem Reported.add (h : r.Reported span) : (r.add report).Reported span := by
  obtain ⟨other, mem, same⟩ := h
  unfold Reporter.add
  split
  . exact ⟨other, List.mem_append_left _ mem, same⟩
  . exact ⟨other, mem, same⟩

theorem reported_add_iff : (r.add ⟨severity, message, some span'⟩).Reported span ↔
    r.Reported span ∨ span = span' ∧ (severity = .error ∨ r.warnings = true) := by
  constructor
  . intro h
    rcases reported_of_add h with h | ⟨admitted, same⟩
    . exact .inl h
    . exact .inr ⟨(Option.some.inj same).symm, (admits_iff.1 admitted).1⟩
  . rintro (h | ⟨rfl, loud⟩)
    . exact h.add
    . by_cases old : r.Reported span
      . exact old.add
      . unfold add
        rw [if_pos (admits_iff.2 ⟨loud, old⟩)]
        exact ⟨_, List.mem_append_right _ (List.mem_singleton_self _), rfl⟩

theorem errors_add_warning : (r.add ⟨.warning, message, some span⟩).errors = r.errors := by
  unfold add errors
  split
  . simp
  . rfl

theorem errors_add_old (old : r.Reported span) :
    (r.add ⟨severity, message, some span⟩).errors = r.errors := by
  unfold add
  rw [if_neg]
  rw [admits_iff]
  exact fun new => new.2 old

theorem errors_add_new (new : ¬r.Reported span) :
    (r.add ⟨.error, message, some span⟩).errors = r.errors + 1 := by
  unfold add errors
  rw [if_pos (admits_iff.2 ⟨.inl rfl, new⟩)]
  simp

theorem Reachable.add (h : r.Reachable) (known : span.file < r.files.length) :
    (r.add ⟨severity, message, some span⟩).Reachable := by
  have added : r.addSpan? severity message span = some (r.add ⟨severity, message, some span⟩) := by
    unfold addSpan?
    simp [Nat.not_le.2 known]
  exact .addSpan h added

theorem Reachable.file_lt (h : r.Reachable) (reported : r.Reported span) :
    span.file < r.files.length := by
  induction h with
  | new =>
    obtain ⟨_, mem, _⟩ := reported
    cases mem
  | addFile name text _ ih =>
    have := ih reported
    simp only [Reporter.addFile, List.length_append]
    omega
  | @addSpan r r' severity message span' _ added ih =>
    unfold addSpan? at added
    simp only at added
    split at added
    . cases added
    . next known =>
      cases added
      rw [files_add]
      rcases reported_of_add reported with reported | ⟨admitted, same⟩
      . exact ih reported
      . cases same
        simpa [admitted] using known
  | addGeneral severity message _ ih =>
    unfold Reporter.addGeneral at reported ⊢
    rw [files_add]
    rcases reported_of_add reported with reported | ⟨_, same⟩
    . exact ih reported
    . cases same

end Reporter

end Interaction
