import Interaction.Definition.Load
import Interaction.Proofs.Channels
import Interaction.Proofs.Definition.Check
import Interaction.Proofs.Report
import Interaction.Proofs.Table
import Mathlib.Data.Finset.Card
import Mathlib.Data.List.Forall2

/-!
This module contains which definition files can be loaded, and as which protocols. The reporter has
no part in this: every error of a file is counted, whatever was reported before.
-/

namespace Interaction

structure Outline.Describes (o : Outline) (p : String × Protocol) : Prop where
  name_eq : p.1 = o.name
  description_eq : p.2.description = o.descriptions.head?.getD ""
  languages_eq : o.languages = [p.2.language]
  table_iff : ∀ e type, (p.2.channels.table e.direction).get? e.channel = some type ↔
    (e, type) ∈ o.declarations

namespace Definition

open Interaction.Parser

variable {r : Reporter} {file : Nat} {ps : List LocatedProblem} {p : LocatedProblem}
variable {d : Definition} {ds : List Definition} {o : Outline} {os : List Outline}

section Report

theorem severity_eq_error_iff : p.problem.severity = .error ↔ p.isError = true := by
  simp [LocatedProblem.isError]

theorem severity_eq_warning_iff : p.problem.severity = .warning ↔ p.isError = false := by
  unfold LocatedProblem.isError
  cases p.problem.severity <;> simp

theorem report_concat : report file (ps ++ [p]) r =
      (report file ps r).add
        ⟨p.problem.severity, p.problem.message, some ⟨file, p.start, p.stop⟩⟩ := by
  unfold report
  rw [List.foldl_append, List.foldl_cons, List.foldl_nil]

theorem warnings_report : (report file ps r).warnings = r.warnings := by
  induction ps using List.reverseRecOn with
  | nil => rfl
  | append_singleton ps p ih => rw [report_concat, Reporter.warnings_add, ih]

theorem files_report : (report file ps r).files = r.files := by
  induction ps using List.reverseRecOn with
  | nil => rfl
  | append_singleton ps p ih => rw [report_concat, Reporter.files_add, ih]

theorem reachable_report (reachable : r.Reachable) (known : file < r.files.length) :
    (report file ps r).Reachable := by
  induction ps using List.reverseRecOn with
  | nil => exact reachable
  | append_singleton ps p ih =>
    rw [report_concat]
    apply ih.add
    rw [files_report]
    exact known

/-- The errors of a list of problems, one for each span. -/
def errorSpans (ps : List LocatedProblem) : Finset (Nat × Nat) :=
  ((ps.filter (·.isError)).map (·.span)).toFinset

theorem mem_errorSpans_iff {span : Nat × Nat} :
    span ∈ errorSpans ps ↔ ∃ p ∈ ps, p.isError = true ∧ p.span = span := by
  unfold errorSpans
  simp [and_assoc]

theorem reported_report_iff (span : Nat × Nat)
    (fresh : ∀ span, r.Reported span → span.file ≠ file) :
    (report file ps r).Reported ⟨file, span.1, span.2⟩ ↔
      ∃ p ∈ ps, p.span = span ∧ (p.isError = true ∨ r.warnings = true) := by
  induction ps using List.reverseRecOn with
  | nil =>
    constructor
    . intro old
      exact absurd rfl (fresh _ old)
    . rintro ⟨p, mem, _⟩
      cases mem
  | append_singleton ps p ih =>
    have same : (⟨file, span.1, span.2⟩ : Span) = ⟨file, p.start, p.stop⟩ ↔ p.span = span := by
      obtain ⟨start, stop⟩ := span
      simp [LocatedProblem.span, eq_comm]
    rw [report_concat, Reporter.reported_add_iff, ih, warnings_report, severity_eq_error_iff, same]
    simp only [List.mem_append, List.mem_singleton, or_and_right, exists_or, exists_eq_left]

theorem errors_report (fresh : ∀ span, r.Reported span → span.file ≠ file)
    (apart : ps.Pairwise Apart) :
    (report file ps r).errors = r.errors + (errorSpans ps).card := by
  -- from the end, since whether a problem counts depends on those before it
  induction ps using List.reverseRecOn with
  | nil => rfl
  | append_singleton ps p ih =>
    rw [List.pairwise_append] at apart
    obtain ⟨apart, _, last⟩ := apart
    rw [report_concat]
    cases error : p.isError with
    | false =>
      have same : errorSpans (ps ++ [p]) = errorSpans ps := by
        simp [errorSpans, error]
      rw [severity_eq_warning_iff.2 error, Reporter.errors_add_warning, ih apart, same]
    | true =>
      have insert : errorSpans (ps ++ [p]) = Insert.insert p.span (errorSpans ps) := by
        ext span
        rw [Finset.mem_insert, mem_errorSpans_iff, mem_errorSpans_iff, or_comm, @eq_comm _ span]
        simp only [List.mem_append, List.mem_singleton, or_and_right, exists_or, exists_eq_left,
          error, true_and]
      -- a report about the span of an error is about an error
      have old_iff : (report file ps r).Reported ⟨file, p.start, p.stop⟩ ↔
          p.span ∈ errorSpans ps := by
        rw [mem_errorSpans_iff]
        apply (reported_report_iff p.span fresh).trans
        constructor
        . rintro ⟨q, mem, same, _⟩
          refine ⟨q, mem, ?_, same⟩
          cases warning : q.isError with
          | true => rfl
          | false => exact absurd same (last q mem p (List.mem_singleton_self p) warning error)
        . rintro ⟨q, mem, isError, same⟩
          exact ⟨q, mem, same, .inl isError⟩
      rw [severity_eq_error_iff.2 error, insert]
      by_cases old : p.span ∈ errorSpans ps
      . rw [Reporter.errors_add_old (old_iff.2 old), ih apart, Finset.insert_eq_of_mem old]
      . rw [Reporter.errors_add_new (mt old_iff.1 old), ih apart, Finset.card_insert_of_notMem old,
          Nat.add_assoc]

theorem card_errorSpans_eq_zero_iff :
    (errorSpans ps).card = 0 ↔ ∀ p ∈ ps, p.isError = false := by
  rw [Finset.card_eq_zero, Finset.eq_empty_iff_forall_notMem]
  constructor
  . intro none p mem
    rw [← Bool.not_eq_true]
    exact fun error => none p.span (mem_errorSpans_iff.2 ⟨p, mem, error, rfl⟩)
  . intro none span mem
    obtain ⟨p, mem, error, _⟩ := mem_errorSpans_iff.1 mem
    rw [none p mem] at error
    cases error

end Report

section Protocols

theorem eq_of_channel_eq {e e' : Event} (direction_eq : e.direction = e'.direction)
    (channel_eq : e.channel = e'.channel) : e = e' := by
  cases e
  cases e'
  cases direction_eq
  cases channel_eq
  rfl

theorem nodup_channels (nodup : (d.declarations.map (·.event)).Nodup) (direction : Direction) :
    (((d.declarations.filter (·.event.direction = direction)).map fun c =>
      (c.event.channel, c.payload)).map (·.1)).Nodup := by
  have events : ((d.declarations.filter (·.event.direction = direction)).map (·.event)).Nodup :=
    nodup.sublist (List.filter_sublist.map _)
  have names : ((d.declarations.filter (·.event.direction = direction)).map fun c =>
      (c.event.channel, c.payload)).map (·.1) =
      ((d.declarations.filter (·.event.direction = direction)).map (·.event)).map (·.channel) := by
    rw [List.map_map, List.map_map]
    rfl
  have direction_eq : ∀ e ∈ (d.declarations.filter (·.event.direction = direction)).map (·.event),
      e.direction = direction := by
    intro e mem
    obtain ⟨c, kept, rfl⟩ := List.mem_map.1 mem
    exact of_decide_eq_true (List.mem_filter.1 kept).2
  -- among events of one direction, the channel tells which one it is
  rw [names]
  apply events.map_on
  intro e mem e' mem' same
  exact eq_of_channel_eq ((direction_eq e mem).trans (direction_eq e' mem').symm) same

theorem get?_channels_iff (nodup : (d.declarations.map (·.event)).Nodup) (e : Event)
    (type : PayloadType) :
    (d.channels.table e.direction).get? e.channel = some type ↔
      (e, type) ∈ d.outline.declarations := by
  have table_eq : d.channels.table e.direction = d.table e.direction := by
    cases e.direction <;> rfl
  rw [table_eq]
  unfold table
  rw [Table.get?_ofList_eq_some_iff (nodup_channels nodup e.direction), outline_declarations]
  simp only [List.mem_map, List.mem_filter, decide_eq_true_eq, Prod.mk.injEq]
  constructor
  . rintro ⟨c, ⟨mem, direction_eq⟩, channel_eq, rfl⟩
    exact ⟨c, mem, eq_of_channel_eq direction_eq channel_eq, rfl⟩
  . rintro ⟨c, mem, rfl, rfl⟩
    exact ⟨c, ⟨mem, rfl⟩, rfl, rfl⟩

theorem description_eq (once : d.outline.descriptions.length ≤ 1) :
    d.description = d.outline.descriptions.head?.getD "" := by
  unfold description
  rw [outline_descriptions] at once ⊢
  match described : d.descriptions with
  | [] => rfl
  | [_] => rfl
  | _ :: _ :: _ =>
    rw [described] at once
    simp at once

theorem exists_toProtocol (wellFormed : d.outline.WellFormed) :
    ∃ p, d.toProtocol = .ok (some p) ∧ d.outline.Describes p := by
  obtain ⟨text, found⟩ := exists_language?_of_outline wellFormed.oneLanguage
  have languages := outline_languages_of found (Nat.le_of_eq wellFormed.oneLanguage)
  have nodup : (d.declarations.map (·.event)).Nodup := outline_declared ▸ wellFormed.declaredOnce
  have declared : ∀ e ∈ text.language.events, d.channels.declares e = true := by
    intro e mem
    have spoken : text.language ∈ d.outline.languages := by
      rw [languages]
      exact List.mem_singleton_self _
    obtain ⟨⟨_, type⟩, declaration, rfl⟩ :=
      List.mem_map.1 (wellFormed.declared text.language spoken e mem)
    exact Channels.declares_iff.2 ⟨type, (get?_channels_iff nodup _ _).2 declaration⟩
  obtain ⟨protocol, made, description, channels, language⟩ :=
    Protocol.exists_new_of_declared d.description declared
  refine ⟨(d.name, protocol), ?_, rfl, ?_, ?_, ?_⟩
  . unfold toProtocol
    rw [found]
    simp only
    rw [made]
    rfl
  . rw [description]
    exact description_eq wellFormed.describedOnce
  . rw [language]
    exact languages
  . rw [channels]
    exact get?_channels_iff nodup

theorem exists_mapM_toProtocol (wellFormed : ∀ d ∈ ds, d.outline.WellFormed) :
    ∃ ps, ds.mapM toProtocol = .ok (ps.map some) ∧
      List.Forall₂ Outline.Describes (ds.map (·.outline)) ps := by
  induction ds with
  | nil => exact ⟨[], rfl, .nil⟩
  | cons d ds ih =>
    rw [List.forall_mem_cons] at wellFormed
    obtain ⟨p, made, describes⟩ := exists_toProtocol wellFormed.1
    obtain ⟨ps, others, all⟩ := ih wellFormed.2
    refine ⟨p :: ps, ?_, .cons describes all⟩
    rw [List.mapM_cons, made, others]
    rfl

end Protocols

section Load

variable {name text : String} {protocols : List (String × Protocol)}

/-- What comes of a text, whatever the reporter. -/
def outcome (name text : String) : Except Fault (List (String × Protocol)) :=
  match parseFile.run text with
  | .error e => .error (.badText e)
  | .ok definitions =>
    let count := (errorSpans (fileProblems [] definitions)).card
    if 0 < count then .error (.badFile count name)
    else (definitions.mapM toProtocol).map (·.filterMap id)

theorem errors_report_of_run (reachable : r.Reachable) (read : parseFile.run text = .ok ds) :
    (report (r.addFile name text).1 (fileProblems [] ds) (r.addFile name text).2).errors =
      r.errors + (errorSpans (fileProblems [] ds)).card := by
  obtain ⟨c', found⟩ := run_eq_ok_iff.1 read
  obtain ⟨⟨start, stop, inOrder⟩, orderly⟩ := orderly_parseFile found
  have fresh : ∀ span, (r.addFile name text).2.Reported span →
      span.file ≠ (r.addFile name text).1 := by
    intro span reported
    exact Nat.ne_of_lt (reachable.file_lt reported)
  exact errors_report fresh (pairwise_apart_fileProblems [] inOrder.pairwise orderly)

theorem errors_load_of_run (name : String) (reachable : r.Reachable)
    (read : parseFile.run text = .ok ds) :
    (load name text r).2.errors = r.errors + (errorSpans (fileProblems [] ds)).card := by
  rw [← errors_report_of_run reachable read]
  unfold load
  simp only [read]
  split <;> rfl

theorem load_eq_outcome (reachable : r.Reachable) : (load name text r).1 = outcome name text := by
  unfold load outcome
  match read : parseFile.run text with
  | .error e => rfl
  | .ok ds =>
    have before : (r.addFile name text).2.errors = r.errors := rfl
    simp only
    rw [errors_report_of_run reachable read, before]
    simp only [Nat.lt_add_right_iff_pos, Nat.add_sub_cancel_left]
    split <;> rfl

theorem errors_load_of_ok (reachable : r.Reachable)
    (ok : (load name text r).1 = .ok protocols) : (load name text r).2.errors = r.errors := by
  rw [load_eq_outcome reachable] at ok
  unfold outcome at ok
  match read : parseFile.run text with
  | .error e =>
    rw [read] at ok
    cases ok
  | .ok ds =>
    rw [read] at ok
    simp only at ok
    split at ok
    . cases ok
    . next none =>
      rw [errors_load_of_run name reachable read, Nat.eq_zero_of_not_pos none, Nat.add_zero]

theorem reachable_load (reachable : r.Reachable) : (load name text r).2.Reachable := by
  have added : (r.addFile name text).2.Reachable := .addFile name text reachable
  have known : (r.addFile name text).1 < (r.addFile name text).2.files.length := by
    simp [Reporter.addFile]
  unfold load
  simp only
  split
  . exact added.add known
  . split <;> exact reachable_report added known

theorem fileText_iff : Outline.FileText text.toList os ↔
    ∃ ds, parseFile.run text = .ok ds ∧ ds.map (·.outline) = os := by
  constructor
  . intro file
    obtain ⟨ds, c', found, same, _⟩ :=
      reads_parseFile.exists_result (c := .ofText text.toList) ⟨file, rfl⟩
    exact ⟨ds, run_eq_ok_iff.2 ⟨c', found⟩, same⟩
  . rintro ⟨ds, read, rfl⟩
    obtain ⟨c', found⟩ := run_eq_ok_iff.1 read
    exact (reads_parseFile.found found).1

theorem outcome_of_not_fileText (noFile : ∀ os, ¬Outline.FileText text.toList os) :
    ∃ e, outcome name text = .error (.badText e) := by
  unfold outcome
  match read : parseFile.run text with
  | .error e => exact ⟨e, rfl⟩
  | .ok ds => exact absurd (fileText_iff.2 ⟨ds, read, rfl⟩) (noFile _)

theorem outcome_of_fileText (name : String) (file : Outline.FileText text.toList os) :
    (Outline.AllWellFormed os ∧
      ∃ ps, outcome name text = .ok ps ∧ List.Forall₂ Outline.Describes os ps) ∨
    (¬Outline.AllWellFormed os ∧ ∃ count, outcome name text = .error (.badFile count name)) := by
  obtain ⟨ds, read, rfl⟩ := fileText_iff.1 file
  obtain ⟨c', found⟩ := run_eq_ok_iff.1 read
  have wellFormed_iff := noError_iff (orderly_parseFile found).2
  rw [← card_errorSpans_eq_zero_iff] at wellFormed_iff
  unfold outcome
  rw [read]
  simp only
  split
  . next errors =>
    exact .inr ⟨fun wellFormed => Nat.ne_of_gt errors (wellFormed_iff.2 wellFormed), _, rfl⟩
  . next none =>
    have wellFormed := wellFormed_iff.1 (Nat.eq_zero_of_not_pos none)
    obtain ⟨ps, made, describes⟩ :=
      exists_mapM_toProtocol (List.forall_mem_map.1 wellFormed.each)
    refine .inl ⟨wellFormed, ps, ?_, describes⟩
    rw [made]
    simp [Except.map]

theorem outcome_cases (name text : String) :
    (∃ os, Outline.FileText text.toList os ∧ Outline.AllWellFormed os ∧
      ∃ ps, outcome name text = .ok ps) ∨
    (∃ e, outcome name text = .error (.badText e)) ∨
    ∃ count, outcome name text = .error (.badFile count name) := by
  by_cases isFile : ∃ os, Outline.FileText text.toList os
  . obtain ⟨os, file⟩ := isFile
    rcases outcome_of_fileText name file with ⟨wellFormed, ps, ok, _⟩ | ⟨_, failed⟩
    . exact .inl ⟨os, file, wellFormed, ps, ok⟩
    . exact .inr (.inr failed)
  . exact .inr (.inl (outcome_of_not_fileText (not_exists.1 isFile)))

/--
A file can be loaded exactly if it is well formed, and then gives the protocols that it describes,
in order. The reporter has no part in this, and no protocol is refused for an undeclared channel.
-/
theorem load_ok_iff_allWellFormed (name text : String) (r : Reporter) (reachable : r.Reachable) :
    ((∃ ps, (load name text r).1 = .ok ps) ↔
      ∃ os, Outline.FileText text.toList os ∧ Outline.AllWellFormed os) ∧
    (∀ ps os, (load name text r).1 = .ok ps → Outline.FileText text.toList os →
      List.Forall₂ Outline.Describes os ps) ∧
    (∀ r' : Reporter, r'.Reachable → (load name text r').1 = (load name text r).1) ∧
    ∀ e, (load name text r).1 ≠ .error (.undeclaredChannel e) := by
  rw [load_eq_outcome reachable]
  refine ⟨⟨?_, ?_⟩, ?_, fun r' => load_eq_outcome, ?_⟩
  . rintro ⟨ps, ok⟩
    rcases outcome_cases name text with ⟨os, file, wellFormed, _⟩ | ⟨e, failed⟩ | ⟨count, failed⟩
    . exact ⟨os, file, wellFormed⟩
    . cases ok.symm.trans failed
    . cases ok.symm.trans failed
  . rintro ⟨os, file, wellFormed⟩
    rcases outcome_of_fileText name file with ⟨_, ps, ok, _⟩ | ⟨ill, _⟩
    . exact ⟨ps, ok⟩
    . exact absurd wellFormed ill
  . intro ps os ok file
    rcases outcome_of_fileText name file with ⟨_, ps', ok', describes⟩ | ⟨_, _, failed⟩
    . cases ok.symm.trans ok'
      exact describes
    . cases ok.symm.trans failed
  . intro e refused
    rcases outcome_cases name text with ⟨_, _, _, _, ok⟩ | ⟨_, failed⟩ | ⟨_, failed⟩
    . cases refused.symm.trans ok
    . cases refused.symm.trans failed
    . cases refused.symm.trans failed

theorem load_ok_of_commented :
    let text :=
      "// p\nprotocol p \x7b in a: T; out b: list.T; language \x7b in:a ; out:b * \x7d \x7d"
    let r := (load "other" "protocol" (.new true false)).2
    (∃ os, Outline.FileText text.toList os ∧ Outline.AllWellFormed os) ∧
      (load "file" text (.new false true)).1 = (load "file" text r).1 := by
  intro text r
  have reachable : r.Reachable := reachable_load (.new _ _)
  have loaded := load_ok_iff_allWellFormed "file" text r reachable
  refine ⟨loaded.1.1 ?_, loaded.2.2.1 _ (.new _ _)⟩
  have ok : (load "file" text r).1.toOption.isSome = true := by decide +kernel
  match result : (load "file" text r).1 with
  | .ok ps => exact ⟨ps, rfl⟩
  | .error _ =>
    rw [result] at ok
    cases ok

end Load

end Definition

end Interaction
