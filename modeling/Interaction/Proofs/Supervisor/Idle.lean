import Interaction.Proofs.Supervisor.Readdressed

/-!
This module contains the proof that some lines of a stream do not matter: wherever blank lines and
instructions that are not understood are inserted, a run does the same, and fails in the same way.
-/

namespace Interaction

namespace Lines

/-- Whether a line is blank, or an instruction that the supervisor does not understand. -/
inductive Idle (line : List UInt8) : Prop where
  | blank (text : String) (decoded : Text.decode? line = some text)
    (white : ∀ c ∈ text.toList, Text.isBlank c = true)
  | unknown (m : Message) (read : parse line = some (.ok m)) (command : String)
    (topic : m.topic = Control.topicStart ++ command) (other : command ≠ "set_config")

structure IsLineBefore (line after : List UInt8) : Prop where
  ne_nil : line ≠ []
  noFeed : 10 ∉ line.dropLast
  ended : line.getLast? = some 10 ∨ after = []

/-- Whether a stream is another one with idle lines inserted at the beginnings of lines. -/
inductive Padded (input : List UInt8) : List UInt8 → Prop where
  | none : Padded input input
  | insert {before line after : List UInt8} : Padded input (before ++ after) → Boundary before →
    Idle line → IsLineBefore line after → Padded input (before ++ (line ++ after))

theorem IsLineBefore.cut_append {line after : List UInt8} (h : IsLineBefore line after) :
    cut (line ++ after) = line :: cut after := by
  have single : cut line = [line] := cut_eq_singleton h.ne_nil h.noFeed
  rcases h.ended with ended | rfl
  . rw [Lines.cut_append (.inr ended), single]
    rfl
  . rw [List.append_nil, single]
    rfl

end Lines

def Occurrence.isRemark : Occurrence → Bool
  | .logged entry => entry.source = .supervisor
  | _ => false

namespace Transcript

def withoutRemarks (t : Transcript) : Transcript := t.filter (!·.isRemark)

theorem calls_withoutRemarks (t : Transcript) : t.withoutRemarks.calls = t.calls := by
  unfold withoutRemarks calls
  rw [List.filterMap_filter]
  apply List.filterMap_congr
  intro o _
  cases o with
  | logged entry => simp
  | _ => rfl

theorem messages_withoutRemarks (t : Transcript) : t.withoutRemarks.messages = t.messages := by
  unfold withoutRemarks messages
  rw [List.filterMap_filter]
  apply List.filterMap_congr
  intro o _
  cases o with
  | logged entry => simp
  | _ => rfl

theorem output_withoutRemarks (t : Transcript) : t.withoutRemarks.output = t.output := by
  unfold output
  rw [messages_withoutRemarks]

end Transcript

/-- Whether two failures are the same, up to the number of the line that was read. -/
inductive Failure.Renumbered : Failure → Failure → Prop where
  | same (failure : Failure) : Renumbered failure failure
  | reading (failure : Failure) (number number' : Nat) :
    Renumbered (failure.within ("while reading line " ++ toString number))
      (failure.within ("while reading line " ++ toString number'))

def Likeness.renumbered : Likeness where
  failures := Failure.Renumbered
  transcripts t u := t.withoutRemarks = u.withoutRemarks
  nil := rfl
  append := by
    intro t u t' u' first last
    unfold Transcript.withoutRemarks at *
    rw [List.filter_append, List.filter_append, first, last]

theorem Activity.Alike.renumbered {σ α : Type} {names : Renaming} {m : Activity σ α}
    (h : Alike (.readdressed names) m m) : Alike .renumbered m m := by
  intro p q same
  obtain ⟨results, same', transcripts⟩ := h p q same
  obtain ⟨_, _, addressed⟩ := h q q ⟨rfl, rfl⟩
  have transcripts : (m p).2.2 = (m q).2.2.map (.addressed names) := transcripts
  have addressed : (m q).2.2 = (m q).2.2.map (.addressed names) := addressed
  refine ⟨?_, same', ?_⟩
  . generalize (m p).1 = left at results
    generalize (m q).1 = right at results
    cases results with
    | ok a => exact .ok a
    | error like =>
      cases like
      exact .error (.same _)
  . rw [transcripts, ← addressed]
    rfl

namespace Supervisor

open Activity

variable {σ α : Type} {s : Supervisor σ} {l : Likeness} {lines before after : List (List UInt8)}
variable {line : List UInt8}

theorem Paired.insert {s' : Supervisor σ} (idle : Alike l (pure ()) (s'.feed line))
    (h : Paired l s s' lines (before ++ after)) :
    Paired l s s' lines (before ++ line :: after) := by
  generalize whole : before ++ after = lines' at h
  induction h generalizing before with
  | nil =>
    obtain ⟨rfl, rfl⟩ := List.append_eq_nil_iff.1 whole
    exact .right idle .nil
  | left effect _ ih => exact .left effect (ih whole)
  | right effect rest ih =>
    cases before with
    | nil =>
      subst whole
      exact .right idle (.right effect rest)
    | cons first before =>
      obtain ⟨rfl, others⟩ := List.cons.inj whole
      exact .right effect (ih others)
  | both effect rest ih =>
    cases before with
    | nil =>
      subst whole
      exact .right idle (.both effect rest)
    | cons first before =>
      obtain ⟨rfl, others⟩ := List.cons.inj whole
      exact .both effect (ih others)

theorem counterpart_refl (names : Renaming) (m : Message) : Counterpart names names m m := by
  match found : Control.commandOf? m.topic with
  | some command => exact .control command found rfl rfl
  | none => exact .channel found found rfl rfl

theorem alike_handle_self (m : Message) : Alike .renumbered (s.handle m) (s.handle m) :=
  (alike_handle (counterpart_refl s.names m)).renumbered

theorem alike_stopReading_self (fault : Fault) :
    Alike .renumbered (s.stopReading fault : Activity σ α) (s.stopReading fault) := by
  unfold stopReading
  apply Alike.progress
  intro p q _
  apply Alike.bind (Alike.record rfl)
  intro _
  exact Alike.fail (.reading _ _ _)

theorem alike_feed_self (line : List UInt8) : Alike .renumbered (s.feed line) (s.feed line) := by
  intro p q same
  have counted : (p.counting line).Matches (q.counting line) := ⟨same.state, same.session⟩
  rw [feed_eq, feed_eq]
  match Lines.parse line with
  | none => exact Alike.pure () _ _ counted
  | some (.ok m) => exact alike_handle_self m _ _ counted
  | some (.error fault) => exact alike_stopReading_self fault _ _ counted

theorem alike_idle_feed (idle : Lines.Idle line) : Alike .renumbered (pure ()) (s.feed line) := by
  cases idle with
  | blank text decoded white => exact alike_blank_feed (Lines.parse_of_blank decoded white)
  | unknown m read command topic other =>
    intro p q same
    rw [feed_of_message read]
    unfold handle
    rw [Incoming.classify_of_unknown topic other]
    exact ⟨.ok (), ⟨same.state, same.session⟩, rfl⟩

theorem paired_self (lines : List (List UInt8)) : Paired .renumbered s s lines lines := by
  induction lines with
  | nil => exact .nil
  | cons line lines ih => exact .both (alike_feed_self line) ih

theorem paired_of_padded {input input' : List UInt8} (padded : Lines.Padded input input') :
    Paired .renumbered s s (Lines.cut input) (Lines.cut input') := by
  induction padded with
  | none => exact paired_self _
  | insert _ boundary idle whole ih =>
    rw [Lines.cut_append boundary] at ih
    rw [Lines.cut_append boundary, whole.cut_append]
    exact ih.insert (alike_idle_feed idle)

/--
Idle lines that are inserted into a stream have no influence on a run. The state of the node, the
output and the calls of the node with their arguments are the same, in the same order, and the
result is the same but for the number of the line where the stream could not be read.
-/
theorem run_of_padded (s : Supervisor σ) (state : σ) (input input' : List UInt8)
    (padded : Lines.Padded input input') :
    ∃ result result' final t t',
      s.run state input = (result, final, t) ∧ s.run state input' = (result', final, t') ∧
      (result' = result ∨ ∃ failure number number',
        result = .error (.within failure ("while reading line " ++ toString (number : Nat))) ∧
        result' = .error (.within failure ("while reading line " ++ toString (number' : Nat)))) ∧
      t'.withoutRemarks = t.withoutRemarks ∧ t'.output = t.output ∧ t'.calls = t.calls := by
  have start : Alike .renumbered s.start s.start := Alike.renumbered alike_start
  have close : Alike .renumbered s.close s.close := Alike.renumbered alike_close
  have alike := run_of_alike rfl start close (paired_of_padded padded) state
  match run : s.run state input, run' : s.run state input' with
  | (result, final, t), (result', final', t') =>
    rw [run, run'] at alike
    obtain ⟨results, states, same⟩ := alike
    have sameState : final' = final := states.symm
    have same : t.withoutRemarks = t'.withoutRemarks := same
    refine ⟨result, result', final, t, t', rfl, by rw [sameState], ?_, same.symm, ?_, ?_⟩
    . cases results with
      | ok v => exact .inl rfl
      | error like =>
        cases like with
        | same failure => exact .inl rfl
        | reading failure number number' => exact .inr ⟨failure, number, number', rfl, rfl⟩
    . rw [← t'.output_withoutRemarks, ← same, t.output_withoutRemarks]
    . rw [← t'.calls_withoutRemarks, ← same, t.calls_withoutRemarks]

def paddedStream : List UInt8 :=
  "\n".toUTF8.toList ++ (topicLine "wrapper.ping" ++ topicLine "camera")

theorem padded_paddedStream : Lines.Padded (topicLine "camera") paddedStream := by
  have ping : Lines.Idle (topicLine "wrapper.ping") :=
    .unknown (.new "wrapper.ping" .null) (by cbv) "ping" rfl (by decide)
  have blank : Lines.Idle "\n".toUTF8.toList :=
    .blank "\n" (by decide +kernel) (by simp [Text.isBlank])
  have pingLine (after : List UInt8) : Lines.IsLineBefore (topicLine "wrapper.ping") after :=
    ⟨by decide +kernel, by decide +kernel, .inl (by decide +kernel)⟩
  have blankLine (after : List UInt8) : Lines.IsLineBefore "\n".toUTF8.toList after :=
    ⟨by decide +kernel, by decide +kernel, .inl (by decide +kernel)⟩
  have plain : Lines.Padded (topicLine "camera") ([] ++ topicLine "camera") := .none
  have once : Lines.Padded (topicLine "camera")
      ([] ++ (topicLine "wrapper.ping" ++ topicLine "camera")) :=
    plain.insert (.inl rfl) ping (pingLine _)
  exact once.insert (.inl rfl) blank (blankLine _)

theorem run_of_padded_cameraFilter :
    ∃ final t t', cameraFilter.run () (topicLine "camera") = (.ok .enough, final, t) ∧
      cameraFilter.run () paddedStream = (.ok .enough, final, t') ∧
      t'.output = t.output ∧ t'.calls = t.calls := by
  obtain ⟨result, result', final, t, t', run, run', same, _, output, calls⟩ :=
    run_of_padded cameraFilter () _ _ padded_paddedStream
  have enough : (cameraFilter.run () (topicLine "camera")).1 = .ok .enough := by cbv
  rw [run] at enough
  subst enough
  rcases same with rfl | ⟨failure, number, number', failed, _⟩
  . exact ⟨final, t, t', run, run', output, calls⟩
  . cases failed

end Supervisor

end Interaction
