import Interaction.Proofs.Supervisor.Safety
import Interaction.Proofs.Supervisor.Steps

/-!
This module contains the proof that a refused event is final: the node is handed nothing more, and
nothing more that it asks to write goes out.
-/

namespace Interaction

namespace Context

variable {ctx : Context} {channel : String} {data : Json} {session : Session}

theorem write_cases (ctx : Context) (channel : String) (data : Json) (session : Session) :
    (∃ message, ctx.write channel data session =
      (.ok (), session.push (.output channel), [.sent channel message])) ∨
    (∃ known, ctx.write channel data session =
      (.error (.unknownChannel (.output channel) known), session,
        [.refused channel (.unknownChannel (.output channel) known)])) ∨
    ctx.write channel data session =
      (.error (.violation (.output channel) session.expected), session.push (.output channel),
        [.refused channel (.violation (.output channel) session.expected)]) := by
  match found : ctx.protocol.resolve (.output channel) with
  | .error fault =>
    cases Protocol.resolve_eq_error found
    exact .inr (.inl ⟨_, write_of_unknown found⟩)
  | .ok type =>
    by_cases illegal : (session.push (.output channel)).verdict = .unexpected
    . exact .inr (.inr (write_of_illegal found illegal))
    . exact .inl ⟨_, write_of_legal found illegal⟩

variable {session' : Session} {now : Transcript} {fault : Fault}

theorem eq_sent_of_write (ok : ctx.write channel data session = (.ok (), session', now)) :
    ∃ message, now = [.sent channel message] := by
  rcases ctx.write_cases channel data session with ⟨message, eq⟩ | ⟨known, eq⟩ | eq
  . cases ok.symm.trans eq
    exact ⟨message, rfl⟩
  . cases ok.symm.trans eq
  . cases ok.symm.trans eq

theorem eq_refused_of_write
    (failed : ctx.write channel data session = (.error fault, session', now)) :
    now = [.refused channel fault] ∧
      ∀ e known, fault = .unknownChannel e known → session' = session := by
  rcases ctx.write_cases channel data session with ⟨message, eq⟩ | ⟨known, eq⟩ | eq
  . cases failed.symm.trans eq
  . cases failed.symm.trans eq
    exact ⟨rfl, fun _ _ _ => rfl⟩
  . cases failed.symm.trans eq
    refine ⟨rfl, ?_⟩
    intro e known other
    cases other

end Context

namespace Lawful

variable {protocol : Protocol} {names : Renaming} {t u : Transcript} {o : Occurrence}
variable {channel : String} {e : Event} {expected : List Event}

theorem of_snoc (h : Lawful protocol names (t ++ [o])) :
    Lawful protocol names t ∧ Permits protocol names t o := by
  generalize whole : t ++ [o] = u at h
  cases h with
  | nil => simp at whole
  | snoc before permits =>
    obtain ⟨rfl, last⟩ := List.append_inj' whole rfl
    cases last
    exact ⟨before, permits⟩

theorem permits_of_append (h : Lawful protocol names (t ++ o :: u)) :
    Permits protocol names t o := by
  induction u using List.reverseRecOn with
  | nil => exact h.of_snoc.2
  | append_singleton u last ih =>
    rw [← List.cons_append, ← List.append_assoc] at h
    exact ih h.of_snoc.1

theorem not_allows_of_refused
    (h : Lawful protocol names (t ++ .refused channel (.violation e expected) :: u))
    (w : List Event) : ¬protocol.Allows (t.pushed ++ e :: w) := by
  have illegal : ¬protocol.Allows (t.pushed ++ [e]) := h.permits_of_append
  intro allows
  rw [List.append_cons] at allows
  exact illegal allows.of_append

theorem observations_eq_nil_of_refused
    (h : Lawful protocol names (t ++ .refused channel (.violation e expected) :: u)) :
    u.observations = [] := by
  induction u using List.reverseRecOn with
  | nil => rfl
  | append_singleton u o ih =>
    rw [← List.cons_append, ← List.append_assoc] at h
    obtain ⟨before, permits⟩ := h.of_snoc
    rw [Transcript.observations_append, ih before, List.nil_append]
    match eq : o.event? with
    | some e' =>
      have allows := permits.allows eq
      rw [Transcript.pushed_append, List.append_assoc] at allows
      exact absurd allows (before.not_allows_of_refused (Transcript.pushed u ++ [e']))
    | none =>
      cases o with
      | called call => cases call <;> first | rfl | cases eq
      | sent => cases eq
      | _ => rfl

end Lawful

namespace Transcript

theorem output_eq_empty {t : Transcript} (h : t.observations = []) : t.output = "" := by
  have none : t.messages = [] := by
    unfold messages
    unfold observations at h
    rw [List.filterMap_eq_nil_iff] at *
    intro o mem
    cases o with
    | sent channel message => cases h _ mem
    | _ => rfl
  unfold output
  rw [none]
  rfl

theorem beforeFinish_append {t u : Transcript} (running : Occurrence.called .finish ∉ t) :
    (t ++ u).beforeFinish = t ++ u.beforeFinish := by
  unfold beforeFinish
  rw [List.takeWhile_append_of_pos]
  intro o mem
  split
  . exact absurd mem running
  . rfl

end Transcript

namespace Supervisor

open Activity

variable {σ : Type} {s : Supervisor σ} {state : σ} {lines rest : List (List UInt8)}
variable {line : List UInt8} {failure : Option Unreadable} {p : Progress σ} {t : Transcript}
variable {m : Message} {type : PayloadType}

/-- Whether a run has read some lines and goes on. -/
def Reaches (s : Supervisor σ) (state : σ) (lines : List (List UInt8)) (p : Progress σ)
    (t : Transcript) : Prop :=
  (do s.start; s.feedAll lines : Activity σ Unit) (s.initial state) = (.ok (), p, t)

theorem session_append (s : Supervisor σ) (lines rest : List (List UInt8))
    (failure : Option Unreadable) : s.session (lines ++ rest) failure =
      (do (do s.start; s.feedAll lines); s.feedAll rest; s.endReading failure) := by
  unfold session
  rw [feedAll_append, bind_assoc, bind_assoc]

theorem runOn_of_refused_input (reaches : s.Reaches state lines p t)
    (found : Lines.channelMessage? line = some m)
    (known : s.protocol.resolve (s.eventOf m) = .ok type)
    (illegal : (p.session.push (s.eventOf m)).verdict = .unexpected) :
    s.runOn state (lines ++ line :: rest) failure =
      (.error (.ofFault (.violation (s.eventOf m) p.session.expected)), p.state,
        t ++ [.logged (s.stopEntry (.violation (s.eventOf m) p.session.expected))]) := by
  have refused := feed_of_channelMessage (s := s) (p := p) found
  have counted : ((p.counting line).session.push (s.eventOf m)).verdict = .unexpected := illegal
  rw [deliver_of_illegal known counted] at refused
  unfold runOn
  rw [session_append, bind_of_ok reaches, feedAll, bind_assoc, bind_of_error refused]
  rfl

/--
A request to write that is refused leaves no output, and the session as it was if the channel is
unknown. Once a request was refused as illegal, the node is handed nothing more, and learns of no
other request that it is accepted; the verdict of the run, if the stream had not ended before, is
that its events are illegal. A run in which an input is refused as illegal ends there with a
failure. The stream may end after its lines, or come to a place where it cannot be read on.
-/
theorem refused_event_is_final (s : Supervisor σ) (state : σ) (lines : List (List UInt8))
    (failure : Option Unreadable) :
    (∀ session channel data session' now,
      s.context.write channel data session = (.ok (), session', now) →
        ∃ message, now = [.sent channel message]) ∧
    (∀ session channel data fault session' now,
      s.context.write channel data session = (.error fault, session', now) →
        now = [.refused channel fault] ∧ Transcript.output now = "" ∧
        ∀ e known, fault = .unknownChannel e known → session' = session) ∧
    ∀ result final t, s.runOn state lines failure = (result, final, t) →
      (∀ before channel e expected after,
        t = before ++ .refused channel (.violation e expected) :: after →
          Transcript.observations after = [] ∧ Transcript.output after = "" ∧
          s.observed.runOn (state, []) lines failure =
            (result, (final, Transcript.observations before), t) ∧
          (Occurrence.called .finish ∉ before → ∀ v, result = .ok v → v = .unexpected)) ∧
      ∀ early line rest p t' m type, lines = early ++ line :: rest →
        s.Reaches state early p t' → Lines.channelMessage? line = some m →
        s.protocol.resolve (s.eventOf m) = .ok type →
        (p.session.push (s.eventOf m)).verdict = .unexpected →
          ∃ entry, result = .error (.ofFault (.violation (s.eventOf m) p.session.expected)) ∧
            final = p.state ∧ t = t' ++ [.logged entry] := by
  refine ⟨?_, ?_, ?_⟩
  . intro session channel data session' now ok
    exact Context.eq_sent_of_write ok
  . intro session channel data fault session' now failed
    obtain ⟨rfl, unchanged⟩ := Context.eq_refused_of_write failed
    exact ⟨rfl, rfl, unchanged⟩
  . intro result final t run
    obtain ⟨lawful, verdict⟩ := lawful_runOn s state lines failure
    rw [run] at lawful verdict
    refine ⟨?_, ?_⟩
    . rintro before channel e expected after rfl
      have none := lawful.observations_eq_nil_of_refused
      refine ⟨none, Transcript.output_eq_empty none, ?_, ?_⟩
      . have notes := runOn_observed s state lines failure
        rw [notes, run, Transcript.observations_append, Transcript.observations_cons, none]
        simp [Occurrence.observation?]
      . intro running v ok
        have illegal := lawful.not_allows_of_refused (Transcript.beforeFinish after).pushed
        rw [verdict v ok, Transcript.beforeFinish_append running, Transcript.pushed_append]
        exact Classical.not_not.1 illegal
    . rintro early line rest p t' m type rfl reaches found known illegal
      rw [runOn_of_refused_input reaches found known illegal] at run
      cases run
      exact ⟨_, rfl, rfl, rfl⟩

def hasty : Supervisor Unit where
  node := { Node.imageFilter with init := do let _ ← Callback.tryWrite "image" .null }
  protocol := Builtin.imageFilter
  names := .identity
  handled := by decide

def hastyRefusal : Fault := .violation (.output "image") Builtin.imageFilter.newSession.expected

def hastySession : Session := Builtin.imageFilter.newSession.push (.output "image")

theorem write_hasty :
    hasty.context.write "image" .null Builtin.imageFilter.newSession =
      (.error hastyRefusal, hastySession, [.refused "image" hastyRefusal]) := by
  have known : hasty.context.protocol.resolve (.output "image") = .ok "JPGImage" := rfl
  exact Context.write_of_illegal known (by cbv)

theorem start_hasty : ∃ entry, hasty.start (hasty.initial ()) =
    (.ok (), ⟨(), hastySession, 0⟩,
      [.called .init, .refused "image" hastyRefusal, .logged entry]) := by
  have performed :
      hasty.context.perform (hasty.node.init.run.run ()) Builtin.imageFilter.newSession =
        ((.ok (), ()), hastySession, [.refused "image" hastyRefusal] ++ []) :=
    Context.perform_write write_hasty rfl
  exact start_of_perform (s := hasty) (p := hasty.initial ()) performed

theorem runOn_hasty : ∃ after, hasty.runOn () [] none =
    (.ok .unexpected, (), .called .init :: .refused "image" hastyRefusal :: after) := by
  obtain ⟨entry, start⟩ := start_hasty
  have finished : hasty.context.perform (hasty.node.finish.run.run ()) hastySession =
      ((.ok (), ()), hastySession, [.logged ⟨_, _, _⟩]) := rfl
  obtain ⟨entries, close⟩ := close_of_perform (s := hasty) (p := ⟨(), hastySession, 0⟩) finished
  have illegal : hastySession.verdict = .unexpected := by cbv
  unfold runOn session
  rw [bind_of_ok start, feedAll, Activity.pure_bind, endReading, close, illegal]
  exact ⟨_, rfl⟩

theorem runOn_hasty_unreadable : ∃ failure after, hasty.runOn () [[10]] (some .denied) =
    (.error failure, (), .called .init :: .refused "image" hastyRefusal :: after) := by
  obtain ⟨entry, start⟩ := start_hasty
  have blank : Lines.parse [10] = none := by cbv
  obtain ⟨entry', stopped⟩ := hasty.stopReading_eq (α := Verdict) (.unreadable .denied)
    (Progress.counting ⟨(), hastySession, 0⟩ [10])
  unfold runOn session
  rw [bind_of_ok start, feedAll, bind_assoc, bind_of_ok (feed_of_blank blank), feedAll,
    Activity.pure_bind, endReading, stopped]
  exact ⟨_, _, rfl⟩

def imageLine : List UInt8 := "\x7b\"topic\":\"image\"\x7d\n".toUTF8.toList

/--
The hasty node is told that its image is refused, and goes on. It is handed no message, and the run
ends with the verdict that its events are illegal, or with a failure if there was a message, or if
the stream could not be read on after a blank line.
-/
theorem refused_event_is_final_hasty :
    Transcript.output [.refused "image" hastyRefusal] = "" ∧
    (∃ after, hasty.runOn () [] none =
        (.ok .unexpected, (), .called .init :: .refused "image" hastyRefusal :: after) ∧
      Transcript.observations after = [] ∧ Transcript.output after = "") ∧
    (∃ failure after, hasty.runOn () [[10]] (some .denied) =
        (.error failure, (), .called .init :: .refused "image" hastyRefusal :: after) ∧
      Transcript.observations after = [] ∧ Transcript.output after = "") ∧
    ∃ after e expected, hasty.runOn () [imageLine] (some .denied) =
        (.error (.ofFault (.violation e expected)), (),
          .called .init :: .refused "image" hastyRefusal :: after) ∧
      Transcript.observations after = [] ∧ Transcript.output after = "" := by
  refine ⟨?_, ?_, ?_, ?_⟩
  . exact ((refused_event_is_final hasty () [] none).2.1 _ _ _ _ _ _ write_hasty).2.1
  . obtain ⟨after, run⟩ := runOn_hasty
    have all := (refused_event_is_final hasty () [] none).2.2 _ _ _ run
    obtain ⟨none, silent, _⟩ := all.1 [.called .init] "image" _ _ _ rfl
    exact ⟨after, run, none, silent⟩
  . obtain ⟨failure, after, run⟩ := runOn_hasty_unreadable
    have all := (refused_event_is_final hasty () [[10]] (some .denied)).2.2 _ _ _ run
    obtain ⟨none, silent, _⟩ := all.1 [.called .init] "image" _ _ _ rfl
    exact ⟨failure, after, run, none, silent⟩
  . obtain ⟨entry, start⟩ := start_hasty
    have reaches : hasty.Reaches () [] ⟨(), hastySession, 0⟩
        [.called .init, .refused "image" hastyRefusal, .logged entry] := by
      unfold Reaches
      rw [bind_of_ok start]
      rfl
    have found : Lines.channelMessage? imageLine = some (.new "image" .null) := by cbv
    obtain ⟨⟨result, final, t⟩, run⟩ :
        ∃ r, hasty.runOn () [imageLine] (some .denied) = r := ⟨_, rfl⟩
    have all := (refused_event_is_final hasty () [imageLine] (some .denied)).2.2 _ _ _ run
    obtain ⟨entry', rfl, rfl, rfl⟩ :=
      all.2 [] imageLine [] _ _ _ "JPGImage" rfl reaches found rfl (by cbv)
    obtain ⟨none, silent, _⟩ := all.1 [.called .init] "image" _ _ _ rfl
    exact ⟨_, _, _, run, none, silent⟩

end Supervisor

end Interaction
