import Interaction.Proofs.Report
import Mathlib.Data.List.Induction

/-!
This module contains what silencing warnings does to the errors of a reporter: errors are kept that
are otherwise lost, because an earlier warning was about their span.
-/

namespace Interaction

namespace Reporter

inductive Request where
  | file (name text : String)
  | span (severity : Severity) (message : String) (place : Span)
  | general (severity : Severity) (message : String)
  deriving DecidableEq, Repr

def answer? (r : Reporter) : Request → Option Reporter
  | .file name text => some (r.addFile name text).2
  | .span severity message place => r.addSpan? severity message place
  | .general severity message => some (r.addGeneral severity message)

def after? (r : Reporter) (requests : List Request) : Option Reporter := requests.foldlM answer? r

def errorReports (r : Reporter) : List Report := r.reports.filter (·.severity = .error)

namespace Request

def countFiles : List Request → Nat
  | [] => 0
  | .file _ _ :: rest => countFiles rest + 1
  | .span _ _ _ :: rest => countFiles rest
  | .general _ _ :: rest => countFiles rest

def LieInFiles (known : Nat) : List Request → Prop
  | [] => True
  | .file _ _ :: rest => LieInFiles (known + 1) rest
  | .span _ _ place :: rest => place.file < known ∧ LieInFiles known rest
  | .general _ _ :: rest => LieInFiles known rest

def first? (place : Span) : List Request → Option Severity
  | [] => none
  | .file _ _ :: rest => first? place rest
  | .span severity _ place' :: rest => if place' = place then some severity else first? place rest
  | .general _ _ :: rest => first? place rest

def ErrorAt (requests : List Request) (place : Span) : Prop :=
  ∃ message, .span .error message place ∈ requests

/-- Whether a report is about no span, or about one that the first request about it calls wrong. -/
def heard (requests : List Request) (report : Report) : Bool :=
  report.span.all fun place => first? place requests == some .error

variable {before after : List Request} {request : Request} {known : Nat}
variable {place place' : Span} {severity : Severity} {message : String} {report : Report}

theorem countFiles_append :
    countFiles (before ++ after) = countFiles before + countFiles after := by
  induction before with
  | nil => simp [countFiles]
  | cons request before ih =>
    cases request with
    | file name text =>
      simp only [List.cons_append, countFiles, ih]
      omega
    | span severity message place => simpa only [List.cons_append, countFiles] using ih
    | general severity message => simpa only [List.cons_append, countFiles] using ih

theorem lieInFiles_append :
    LieInFiles known (before ++ after) ↔
      LieInFiles known before ∧ LieInFiles (known + countFiles before) after := by
  induction before generalizing known with
  | nil => simp [LieInFiles, countFiles]
  | cons request before ih =>
    cases request with
    | file name text =>
      simp only [List.cons_append, LieInFiles, countFiles, ih]
      rw [Nat.add_right_comm, Nat.add_assoc]
    | span severity message place =>
      simp only [List.cons_append, LieInFiles, countFiles, ih, and_assoc]
    | general severity message => simp only [List.cons_append, LieInFiles, countFiles, ih]

theorem first?_append :
    first? place (before ++ after) = (first? place before).or (first? place after) := by
  induction before with
  | nil => rfl
  | cons request before ih =>
    cases request with
    | file name text => simpa only [List.cons_append, first?] using ih
    | span severity message place' =>
      simp only [List.cons_append, first?, ih]
      split <;> rfl
    | general severity message => simpa only [List.cons_append, first?] using ih

theorem isSome_first?_append_span :
    (first? place (before ++ [.span severity message place'])).isSome ↔
      (first? place before).isSome ∨ place = place' := by
  rw [first?_append, Option.isSome_or, Bool.or_eq_true]
  by_cases same : place' = place
  . simp [first?, same]
  . simp [first?, same, Ne.symm same]

theorem errorAt_append :
    ErrorAt (before ++ after) place ↔ ErrorAt before place ∨ ErrorAt after place := by
  unfold ErrorAt
  simp only [List.mem_append, exists_or]

theorem errorAt_span : ErrorAt [.span severity message place'] place ↔
    severity = .error ∧ place = place' := by
  unfold ErrorAt
  simp [eq_comm]

theorem ErrorAt.of_first? (h : first? place before = some .error) : ErrorAt before place := by
  induction before with
  | nil => cases h
  | cons request before ih =>
    rw [← List.singleton_append, errorAt_append]
    cases request with
    | file name text => exact .inr (ih h)
    | span severity message place' =>
      unfold first? at h
      split at h
      . next same =>
        cases h
        exact .inl (errorAt_span.2 ⟨rfl, same.symm⟩)
      . exact .inr (ih h)
    | general severity message => exact .inr (ih h)

theorem ErrorAt.isSome_first? (h : ErrorAt before place) : (first? place before).isSome := by
  obtain ⟨message, mem⟩ := h
  obtain ⟨earlier, later, rfl⟩ := List.append_of_mem mem
  rw [first?_append]
  simp [first?]

theorem heard_append (h : ∀ place, report.span = some place → (first? place before).isSome) :
    heard (before ++ after) report = heard before report := by
  unfold heard
  match about : report.span with
  | none => rfl
  | some place =>
    obtain ⟨severity, first⟩ := Option.isSome_iff_exists.1 (h place about)
    simp [first?_append, first]

end Request

open Request

variable {r loud quiet : Reporter} {requests : List Request} {place : Span}
variable {severity : Severity} {message name text : String} {report : Report}

theorem after?_snoc (request : Request) :
    r.after? (requests ++ [request]) = (r.after? requests).bind (answer? · request) := by
  unfold after?
  rw [List.foldlM_append]
  simp only [List.foldlM_cons, List.foldlM_nil, bind_pure]
  rfl

theorem addSpan?_of_known (severity : Severity) (message : String)
    (known : place.file < r.files.length) :
    r.addSpan? severity message place = some (r.add ⟨severity, message, some place⟩) := by
  unfold addSpan?
  simp [Nat.not_le.2 known]

theorem reported_addFile : (r.addFile name text).2.Reported place ↔ r.Reported place := Iff.rfl

theorem reported_addGeneral :
    (r.addGeneral severity message).Reported place ↔ r.Reported place := by
  constructor
  . intro reported
    rcases reported_of_add reported with old | ⟨_, about⟩
    . exact old
    . cases about
  . exact Reported.add

theorem severity_of_mem_add (quiet : r.warnings = false)
    (errors : ∀ report ∈ r.reports, report.severity = .error) :
    ∀ other ∈ (r.add report).reports, other.severity = .error := by
  unfold add
  split
  . next admitted =>
    unfold admits at admitted
    rw [quiet, Bool.or_false, Bool.and_eq_true, decide_eq_true_eq] at admitted
    intro other mem
    rcases List.mem_append.1 mem with mem | mem
    . exact errors other mem
    . rw [List.mem_singleton.1 mem]
      exact admitted.1
  . exact errors

theorem errorReports_add_error (admitted : r.admits report = true)
    (isError : report.severity = .error) :
    (r.add report).errorReports = r.errorReports ++ [report] := by
  unfold add errorReports
  rw [if_pos admitted]
  simp [isError]

theorem errorReports_add_warning (isWarning : report.severity = .warning) :
    (r.add report).errorReports = r.errorReports := by
  unfold add errorReports
  split <;> simp [isWarning]

theorem add_of_refused (refused : r.admits report = false) : r.add report = r := by
  unfold add
  simp [refused]

theorem admits_eq_false_of_reported (old : r.Reported place) :
    r.admits ⟨severity, message, some place⟩ = false := by
  rw [Bool.eq_false_iff, Ne, admits_iff]
  exact fun new => new.2 old

/-- Two reporters that were asked the same, one of which silences warnings. -/
structure Abreast (requests : List Request) (loud quiet : Reporter) : Prop where
  loud_warnings : loud.warnings = true
  quiet_warnings : quiet.warnings = false
  loud_files : loud.files.length = countFiles requests
  quiet_files : quiet.files.length = countFiles requests
  loud_reported : ∀ place, loud.Reported place ↔ (first? place requests).isSome
  quiet_reported : ∀ place, quiet.Reported place ↔ ErrorAt requests place
  quiet_severity : ∀ report ∈ quiet.reports, report.severity = .error
  errorReports_eq : loud.errorReports = quiet.errorReports.filter (heard requests)

namespace Abreast

theorem new (colour colour' : Bool) :
    Abreast [] (Reporter.new colour true) (Reporter.new colour' false) where
  loud_warnings := rfl
  quiet_warnings := rfl
  loud_files := rfl
  quiet_files := rfl
  loud_reported place := by simp [Reported, Reporter.new, first?]
  quiet_reported place := by simp [Reported, Reporter.new, ErrorAt]
  quiet_severity := by simp [Reporter.new]
  errorReports_eq := rfl

theorem filter_heard (h : Abreast requests loud quiet) (later : List Request) :
    quiet.errorReports.filter (heard (requests ++ later)) =
      quiet.errorReports.filter (heard requests) := by
  apply List.filter_congr
  intro report mem
  apply heard_append
  intro place about
  have reported : quiet.Reported place := ⟨report, (List.mem_filter.1 mem).1, about⟩
  exact ((h.quiet_reported place).1 reported).isSome_first?

theorem file (h : Abreast requests loud quiet) :
    Abreast (requests ++ [.file name text]) (loud.addFile name text).2
      (quiet.addFile name text).2 where
  loud_warnings := h.loud_warnings
  quiet_warnings := h.quiet_warnings
  loud_files := by simp [addFile, countFiles_append, countFiles, h.loud_files]
  quiet_files := by simp [addFile, countFiles_append, countFiles, h.quiet_files]
  loud_reported place := by
    rw [reported_addFile, h.loud_reported, first?_append]
    simp [first?]
  quiet_reported place := by
    rw [reported_addFile, h.quiet_reported, errorAt_append]
    simp [ErrorAt]
  quiet_severity := h.quiet_severity
  errorReports_eq := h.errorReports_eq.trans (h.filter_heard _).symm

theorem general (h : Abreast requests loud quiet) :
    Abreast (requests ++ [.general severity message]) (loud.addGeneral severity message)
      (quiet.addGeneral severity message) := by
  constructor
  case loud_warnings => exact warnings_add.trans h.loud_warnings
  case quiet_warnings => exact warnings_add.trans h.quiet_warnings
  case loud_files =>
    unfold addGeneral
    rw [files_add, h.loud_files, countFiles_append]
    rfl
  case quiet_files =>
    unfold addGeneral
    rw [files_add, h.quiet_files, countFiles_append]
    rfl
  case loud_reported =>
    intro place
    rw [reported_addGeneral, h.loud_reported, first?_append]
    simp [first?]
  case quiet_reported =>
    intro place
    rw [reported_addGeneral, h.quiet_reported, errorAt_append]
    simp [ErrorAt]
  case quiet_severity => exact severity_of_mem_add h.quiet_warnings h.quiet_severity
  case errorReports_eq =>
    unfold addGeneral
    cases severity with
    | warning =>
      rw [errorReports_add_warning rfl, errorReports_add_warning rfl, h.errorReports_eq,
        h.filter_heard]
    | error =>
      rw [errorReports_add_error rfl rfl, errorReports_add_error rfl rfl, h.errorReports_eq,
        List.filter_append, h.filter_heard]
      rfl

theorem warning (h : Abreast requests loud quiet) :
    Abreast (requests ++ [.span .warning message place])
      (loud.add ⟨.warning, message, some place⟩) (quiet.add ⟨.warning, message, some place⟩) := by
  have silenced : quiet.add ⟨.warning, message, some place⟩ = quiet := by
    apply add_of_refused
    unfold admits
    simp [h.quiet_warnings]
  rw [silenced]
  constructor
  case loud_warnings => exact warnings_add.trans h.loud_warnings
  case quiet_warnings => exact h.quiet_warnings
  case loud_files =>
    rw [files_add, h.loud_files, countFiles_append]
    rfl
  case quiet_files =>
    rw [h.quiet_files, countFiles_append]
    rfl
  case loud_reported =>
    intro place'
    rw [reported_add_iff, h.loud_reported, isSome_first?_append_span, h.loud_warnings]
    simp
  case quiet_reported =>
    intro place'
    rw [h.quiet_reported, errorAt_append, errorAt_span]
    simp
  case quiet_severity => exact h.quiet_severity
  case errorReports_eq =>
    rw [errorReports_add_warning rfl, h.errorReports_eq, h.filter_heard]

theorem errorReports_error (h : Abreast requests loud quiet) :
    (loud.add ⟨.error, message, some place⟩).errorReports =
      (quiet.add ⟨.error, message, some place⟩).errorReports.filter
        (heard (requests ++ [.span .error message place])) := by
  by_cases repeated : ErrorAt requests place
  . have quietOld := (h.quiet_reported place).2 repeated
    have loudOld := (h.loud_reported place).2 repeated.isSome_first?
    rw [add_of_refused (admits_eq_false_of_reported quietOld),
      add_of_refused (admits_eq_false_of_reported loudOld), h.errorReports_eq, h.filter_heard]
  . have quietNew : quiet.admits ⟨.error, message, some place⟩ = true :=
      admits_iff.2 ⟨.inl rfl, fun old => repeated ((h.quiet_reported place).1 old)⟩
    rw [errorReports_add_error quietNew rfl, List.filter_append, h.filter_heard,
      ← h.errorReports_eq]
    match first : first? place requests with
    | none =>
      have loudNew : loud.admits ⟨.error, message, some place⟩ = true := by
        rw [admits_iff, h.loud_reported, first]
        simp
      rw [errorReports_add_error loudNew rfl]
      simp [heard, first?_append, first, first?]
    | some .warning =>
      have loudOld : loud.Reported place := (h.loud_reported place).2 (by simp [first])
      rw [add_of_refused (admits_eq_false_of_reported loudOld)]
      simp [heard, first?_append, first]
    | some .error => exact absurd (ErrorAt.of_first? first) repeated

theorem error (h : Abreast requests loud quiet) :
    Abreast (requests ++ [.span .error message place])
      (loud.add ⟨.error, message, some place⟩) (quiet.add ⟨.error, message, some place⟩) := by
  constructor
  case loud_warnings => exact warnings_add.trans h.loud_warnings
  case quiet_warnings => exact warnings_add.trans h.quiet_warnings
  case loud_files =>
    rw [files_add, h.loud_files, countFiles_append]
    rfl
  case quiet_files =>
    rw [files_add, h.quiet_files, countFiles_append]
    rfl
  case loud_reported =>
    intro place'
    rw [reported_add_iff, h.loud_reported, isSome_first?_append_span]
    simp
  case quiet_reported =>
    intro place'
    rw [reported_add_iff, h.quiet_reported, errorAt_append, errorAt_span]
    simp
  case quiet_severity => exact severity_of_mem_add h.quiet_warnings h.quiet_severity
  case errorReports_eq => exact h.errorReports_error

end Abreast

theorem exists_abreast (colour colour' : Bool) (placed : LieInFiles 0 requests) :
    ∃ loud quiet, (new colour true).after? requests = some loud ∧
      (new colour' false).after? requests = some quiet ∧ Abreast requests loud quiet := by
  induction requests using List.reverseRecOn with
  | nil => exact ⟨_, _, rfl, rfl, .new colour colour'⟩
  | append_singleton requests request ih =>
    rw [lieInFiles_append, Nat.zero_add] at placed
    obtain ⟨loud, quiet, loudly, quietly, abreast⟩ := ih placed.1
    simp only [after?_snoc, loudly, quietly, Option.bind_some]
    cases request with
    | file name text => exact ⟨_, _, rfl, rfl, abreast.file⟩
    | general severity message => exact ⟨_, _, rfl, rfl, abreast.general⟩
    | span severity message place =>
      have known : place.file < countFiles requests := placed.2.1
      have loudly := loud.addSpan?_of_known severity message
        (abreast.loud_files ▸ known)
      have quietly := quiet.addSpan?_of_known severity message
        (abreast.quiet_files ▸ known)
      cases severity with
      | error => exact ⟨_, _, loudly, quietly, abreast.error⟩
      | warning => exact ⟨_, _, loudly, quietly, abreast.warning⟩

theorem errors_eq_length (r : Reporter) : r.errors = r.errorReports.length :=
  List.countP_eq_length_filter

theorem Abreast.forall_heard_iff (h : Abreast requests loud quiet) :
    (∀ report ∈ quiet.errorReports, heard requests report = true) ↔
      ∀ place, ErrorAt requests place → first? place requests = some .error := by
  constructor
  . intro allHeard place error
    obtain ⟨report, mem, about⟩ := (h.quiet_reported place).2 error
    have isError := h.quiet_severity report mem
    have heard := allHeard report (List.mem_filter.2 ⟨mem, decide_eq_true isError⟩)
    simpa [Request.heard, about] using heard
  . intro wrongFirst report mem
    unfold heard
    match about : report.span with
    | none => rfl
    | some place =>
      have reported : quiet.Reported place := ⟨report, (List.mem_filter.1 mem).1, about⟩
      simp [wrongFirst place ((h.quiet_reported place).1 reported)]

/--
Of two reporters that are asked the same, the one that does not silence warnings has made the error
reports of the other one, in their order, without those about a span that a warning was about first.
They have as many errors, and have made the same error reports, exactly if no error comes after a
warning that was the first report about its span.
-/
theorem errors_silenced (colour colour' : Bool) (requests : List Request)
    (placed : LieInFiles 0 requests) :
    ∃ loud quiet, (new colour true).after? requests = some loud ∧
      (new colour' false).after? requests = some quiet ∧
      loud.errorReports = quiet.errorReports.filter (heard requests) ∧
      (loud.errors = quiet.errors ↔
        ∀ place, ErrorAt requests place → first? place requests = some .error) ∧
      (loud.errorReports = quiet.errorReports ↔
        ∀ place, ErrorAt requests place → first? place requests = some .error) := by
  obtain ⟨loud, quiet, loudly, quietly, abreast⟩ := exists_abreast colour colour' placed
  refine ⟨loud, quiet, loudly, quietly, abreast.errorReports_eq, ?_, ?_⟩
  . rw [errors_eq_length, errors_eq_length, abreast.errorReports_eq,
      List.length_filter_eq_length_iff]
    exact abreast.forall_heard_iff
  . rw [abreast.errorReports_eq, List.filter_eq_self]
    exact abreast.forall_heard_iff

def warnedAndWrong : List Request :=
  [.file "a.prot" "é", .span .warning "odd" ⟨0, 0, 1⟩, .span .error "wrong" ⟨0, 0, 1⟩,
    .span .error "wrong" ⟨0, 0, 2⟩]

theorem lieInFiles_warnedAndWrong : LieInFiles 0 warnedAndWrong :=
  ⟨Nat.zero_lt_one, Nat.zero_lt_one, Nat.zero_lt_one, trivial⟩

theorem errors_silenced_warnedAndWrong : LieInFiles 0 warnedAndWrong ∧
    ∃ loud quiet, (new true true).after? warnedAndWrong = some loud ∧
      (new false false).after? warnedAndWrong = some quiet ∧
      loud.errorReports = quiet.errorReports.filter (heard warnedAndWrong) ∧
      (loud.errors = quiet.errors ↔
        ∀ place, ErrorAt warnedAndWrong place → first? place warnedAndWrong = some .error) ∧
      (loud.errorReports = quiet.errorReports ↔
        ∀ place, ErrorAt warnedAndWrong place → first? place warnedAndWrong = some .error) :=
  ⟨lieInFiles_warnedAndWrong, errors_silenced true false warnedAndWrong lieInFiles_warnedAndWrong⟩

/-- With warnings, one error is counted where two are counted without them. -/
theorem errors_ne_silenced :
    ¬∀ (requests : List Request) (loud quiet : Reporter), LieInFiles 0 requests →
      (new false true).after? requests = some loud →
      (new false false).after? requests = some quiet →
      loud.errors = quiet.errors ∧ loud.errorReports = quiet.errorReports := by
  intro same
  obtain ⟨loud, loudly, one⟩ : ∃ loud, (new false true).after? warnedAndWrong = some loud ∧
      loud.errors = 1 := ⟨_, rfl, rfl⟩
  obtain ⟨quiet, quietly, two⟩ : ∃ quiet, (new false false).after? warnedAndWrong = some quiet ∧
      quiet.errors = 2 := ⟨_, rfl, rfl⟩
  have equal := (same warnedAndWrong loud quiet lieInFiles_warnedAndWrong loudly quietly).1
  rw [one, two] at equal
  cases equal

end Reporter

end Interaction
