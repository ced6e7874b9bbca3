import Interaction.Report.Excerpt

/-!
This module contains reports about files, and the reporter that keeps them. A reporter may silence
warnings, and makes no two reports about the same span of a file.
-/

namespace Interaction

structure Span where
  file : Nat
  start : Nat
  stop : Nat
  deriving DecidableEq, Repr

structure Report where
  severity : Severity
  message : String
  span : Option Span
  deriving DecidableEq, Repr

structure Reporter where
  colour : Bool
  warnings : Bool
  files : List (String × List Excerpt.Line)
  reports : List Report
  deriving DecidableEq, Repr

namespace Reporter

def new (colour warnings : Bool) : Reporter := ⟨colour, warnings, [], []⟩

def addFile (r : Reporter) (name text : String) : Nat × Reporter :=
  (r.files.length, { r with files := r.files ++ [(name, Excerpt.numbered text)] })

/-- Whether a report is made: it is no silenced warning, and the first about its span. -/
def admits (r : Reporter) (report : Report) : Bool :=
  (report.severity = .error || r.warnings) &&
    (report.span.isNone || r.reports.all (·.span != report.span))

def add (r : Reporter) (report : Report) : Reporter :=
  if r.admits report then { r with reports := r.reports ++ [report] } else r

def addSpan? (r : Reporter) (severity : Severity) (message : String) (span : Span) :
    Option Reporter :=
  let report := ⟨severity, message, some span⟩
  if r.admits report && r.files.length ≤ span.file then none else some (r.add report)

def addGeneral (r : Reporter) (severity : Severity) (message : String) : Reporter :=
  r.add ⟨severity, message, none⟩

def errors (r : Reporter) : Nat := r.reports.countP (·.severity = .error)

def ink (r : Reporter) (report : Report) : Ink :=
  match report.span with
  | none =>
    Ink.styled (.title report.severity) report.severity.title ++
      [.text (": " ++ report.message ++ "\n")]
  | some span =>
    match r.files[span.file]? with
    | none => []
    | some (name, lines) =>
      Excerpt.Subject.ink
        ⟨report.severity, report.message, name, lines, span.start, span.stop⟩

def textAfter (r : Reporter) (skipped : Nat) : String :=
  String.join ((r.reports.drop skipped).map fun report => (r.ink report).render r.colour)

end Reporter

end Interaction
