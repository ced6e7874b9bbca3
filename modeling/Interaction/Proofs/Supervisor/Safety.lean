import Interaction.Catalog.Builtin
import Interaction.Node.ImageFilter
import Interaction.Proofs.Supervisor.Observation
import Interaction.Proofs.Supervisor.Steps
import Interaction.Proofs.Supervisor.Triple

/-!
This module contains the proof that a supervisor keeps every run within the protocol, whatever the
node does and whatever the stream holds.
-/

namespace Interaction

namespace Supervisor

open Activity

variable {σ α β : Type} {s : Supervisor σ} {P : Assertion σ} {Q : α → Assertion σ}

def Keeps (s : Supervisor σ) (m : Activity σ α) : Prop :=
  Triple s.context s.protocol.InSync m fun _ => s.protocol.InSync

theorem Keeps.bind {m : Activity σ α} {f : α → Activity σ β} (first : s.Keeps m)
    (last : ∀ a, s.Keeps (f a)) : s.Keeps (m >>= f) :=
  Triple.bind first last

theorem keeps_pure (a : α) : s.Keeps (Pure.pure a : Activity σ α) :=
  Triple.pure fun _ _ sync => sync

theorem keeps_of_quiet {m : Activity σ α}
    (h : ∀ p, ∃ a p', m p = (.ok a, p', []) ∧ p'.session = p.session) : s.Keeps m := by
  apply Triple.of_quiet
  intro t p sync
  obtain ⟨a, p', eq, same⟩ := h p
  exact ⟨a, p', eq, same.trans sync.1, sync.2⟩

theorem keeps_progress : s.Keeps Activity.progress :=
  keeps_of_quiet fun p => ⟨p, p, rfl, rfl⟩

theorem keeps_log {level : LogLevel} {text : String} : s.Keeps (s.log level text) :=
  Triple.record (fun _ _ _ => True.intro) fun _ _ sync => sync.snoc rfl (by simp)

theorem triple_stop {fault : Fault} : Triple s.context P (s.stop fault : Activity σ α) Q := by
  unfold stop
  apply Triple.bind (Q := fun _ _ _ => True)
  . exact Triple.record (fun _ _ _ => True.intro) fun _ _ _ => True.intro
  . intro _
    exact Triple.fail

theorem keeps_call {call : Call} {callback : Callback σ Unit} (quiet : call ≠ .finish)
    (noReceive : ∀ channel data, call ≠ .receive channel data) :
    s.Keeps (s.call call callback) := by
  unfold Supervisor.call
  apply Triple.bind
  . apply triple_call
    intro t p sync
    cases call with
    | receive channel data => exact absurd rfl (noReceive channel data)
    | finish => exact absurd rfl quiet
    | _ => exact ⟨True.intro, sync.snoc rfl (by simp)⟩
  . intro result
    exact Triple.ofExcept fun _ _ _ sync => sync

theorem keeps_setConfig {key : String} {value : Json} : s.Keeps (s.setConfig key value) := by
  unfold setConfig
  apply keeps_progress.bind
  intro p
  match s.node.setConfig key value p.state with
  | (result, state) =>
    apply Keeps.bind
    . exact Triple.record (fun _ _ _ => True.intro) fun _ _ sync => sync.snoc rfl (by simp)
    intro _
    apply Keeps.bind
    . exact keeps_of_quiet fun p => ⟨_, _, rfl, rfl⟩
    intro _
    have configured : s.Keeps (s.call (.configured key value) (s.node.configured key value)) :=
      keeps_call (by simp) (by simp)
    match result with
    | .ok () => exact configured
    | .error fault => exact keeps_log.bind fun _ => configured

def Holds (s : Supervisor σ) (e : Event) (next : Session) : Assertion σ := fun t p =>
  p.session = next ∧ next = s.protocol.newSession.follow (t.pushed ++ [e]) ∧ Running t

theorem triple_setSession {p : Progress σ} {e : Event} :
    Triple s.context (fun t q => s.protocol.InSync t q ∧ p = q) (.setSession (p.session.push e))
      fun _ => s.Holds e (p.session.push e) := by
  apply Triple.of_quiet
  rintro t q ⟨sync, rfl⟩
  refine ⟨(), _, rfl, rfl, ?_, sync.2⟩
  rw [sync.1, Session.follow_append]
  rfl

theorem triple_log {e : Event} {next : Session} {level : LogLevel} {text : String} :
    Triple s.context (s.Holds e next) (s.log level text) fun _ => s.Holds e next := by
  apply Triple.record
  . exact fun _ _ _ => True.intro
  . rintro t p ⟨same, sync, running⟩
    refine ⟨same, ?_, running.snoc (by simp)⟩
    rw [Transcript.pushed_snoc, sync]
    simp [Occurrence.pushed?, Occurrence.event?]

theorem triple_receive {channel : String} {data : Json} {next : Session}
    (declared : channel ∈ s.protocol.channels.inputs.keys) (legal : next.verdict ≠ .unexpected) :
    Triple s.context (s.Holds (.input channel) next)
      (.call s.context (.receive channel data) (s.node.receive channel data))
      fun _ => s.protocol.InSync := by
  apply triple_call
  rintro t p ⟨same, sync, running⟩
  -- the event has been pushed before the call is on record
  rw [sync] at legal
  refine ⟨⟨declared, legal⟩, ?_, running.snoc (by simp)⟩
  rw [Transcript.pushed_snoc, same, sync]
  rfl

theorem keeps_deliver {m : Message} : s.Keeps (s.deliver m) := by
  unfold deliver
  simp only
  split
  . next fault unknown => exact triple_stop
  . next type known =>
    apply Triple.bind Triple.progress
    intro p
    apply Triple.bind triple_setSession
    intro _
    split
    . next illegal => exact triple_stop
    . next legal =>
      apply Triple.bind triple_log
      intro _
      -- here the session is one event ahead of the transcript
      apply Triple.bind (triple_receive (Protocol.mem_keys_of_resolve known) legal)
      intro result
      split
      . exact keeps_pure ()
      . apply keeps_log.bind
        intro _
        exact Triple.fail

theorem keeps_handle {m : Message} : s.Keeps (s.handle m) := by
  unfold handle
  split
  . exact Triple.fail
  . exact keeps_setConfig
  . exact keeps_log
  . exact keeps_deliver

theorem keeps_start : s.Keeps s.start := by
  unfold start
  apply Keeps.bind
  . exact keeps_call (by simp) (by simp)
  . intro _
    exact keeps_log

theorem triple_stopReading {fault : Fault} :
    Triple s.context s.protocol.InSync (s.stopReading fault : Activity σ α) Q := by
  unfold stopReading
  apply Triple.bind keeps_progress
  intro p
  apply Triple.bind keeps_log
  intro _
  exact Triple.fail

theorem keeps_feed {line : List UInt8} : s.Keeps (s.feed line) := by
  unfold feed
  apply keeps_progress.bind
  intro p
  apply Keeps.bind
  . exact keeps_of_quiet fun p => ⟨_, _, rfl, rfl⟩
  intro _
  split
  . exact keeps_pure ()
  . exact keeps_handle
  . exact triple_stopReading

theorem keeps_feedAll (lines : List (List UInt8)) : s.Keeps (s.feedAll lines) := by
  induction lines with
  | nil => exact keeps_pure ()
  | cons line rest ih => exact keeps_feed.bind fun _ => ih

theorem triple_callFinish {p : Progress σ} :
    Triple s.context (fun t q => s.protocol.InSync t q ∧ p = q)
      (.call s.context .finish s.node.finish)
      fun _ t _ => p.session = s.protocol.newSession.follow t.beforeFinish.pushed := by
  rintro t q lawful ⟨sync, rfl⟩
  have permits : Permits s.protocol s.names t (.called .finish) := True.intro
  have pushed :
      p.session = s.protocol.newSession.follow (t ++ [Occurrence.called .finish]).pushed := by
    rw [Transcript.pushed_snoc]
    simp [Occurrence.pushed?, Occurrence.event?, sync.1]
  obtain ⟨now, eq, kept⟩ := kept_call s.node.finish lawful permits pushed
  rw [eq]
  constructor
  . rw [List.append_cons]
    exact kept.lawful
  . intro _ _
    rw [sync.2.beforeFinish_append]
    exact sync.1

theorem triple_finish {p : Progress σ} :
    Triple s.context (fun t q => s.protocol.InSync t q ∧ p = q) (s.call .finish s.node.finish)
      fun _ t _ => p.session = s.protocol.newSession.follow t.beforeFinish.pushed := by
  unfold Supervisor.call
  apply Triple.bind triple_callFinish
  intro result
  exact Triple.ofExcept fun _ _ _ h => h

theorem triple_close : Triple s.context s.protocol.InSync s.close fun v t _ =>
    v = (s.protocol.newSession.follow t.beforeFinish.pushed).verdict := by
  unfold close
  apply Triple.bind keeps_log
  intro _
  apply Triple.bind Triple.progress
  intro p
  have logged : ∀ level text,
      Triple s.context (fun t q => s.protocol.InSync t q ∧ p = q) (s.log level text)
        fun _ t q => s.protocol.InSync t q ∧ p = q := by
    intro level text
    apply Triple.record
    . exact fun _ _ _ => True.intro
    . exact fun _ _ h => ⟨h.1.snoc rfl (by simp), h.2⟩
  have ended : Triple s.context (fun t q => s.protocol.InSync t q ∧ p = q)
      (do s.call .finish s.node.finish; pure p.session.verdict) fun v t _ =>
        v = (s.protocol.newSession.follow t.beforeFinish.pushed).verdict := by
    apply Triple.bind triple_finish
    intro _
    apply Triple.pure
    intro t q same
    rw [same]
  simp only
  split
  . exact (logged _ _).bind fun _ => ended
  . exact (logged _ _).bind fun _ => ended
  . exact ended

theorem triple_endReading (failure : Option Unreadable) :
    Triple s.context s.protocol.InSync (s.endReading failure) fun v t _ =>
      v = (s.protocol.newSession.follow t.beforeFinish.pushed).verdict := by
  cases failure with
  | none => exact triple_close
  | some cause => exact triple_stopReading

theorem triple_session (lines : List (List UInt8)) (failure : Option Unreadable) :
    Triple s.context s.protocol.InSync (s.session lines failure) fun v t _ =>
      v = (s.protocol.newSession.follow t.beforeFinish.pushed).verdict := by
  unfold session
  apply Triple.bind keeps_start
  intro _
  apply Triple.bind (keeps_feedAll lines)
  intro _
  exact triple_endReading failure

theorem bind_eq_ok {node : Node σ} {protocol : Protocol} {names : Renaming}
    (h : Supervisor.bind node protocol names = .ok s) :
    s.node = node ∧ s.protocol = protocol ∧ s.names = names := by
  unfold Supervisor.bind at h
  split at h
  . cases h
  . cases h
    exact ⟨rfl, rfl, rfl⟩

theorem bind_self (s : Supervisor σ) : Supervisor.bind s.node s.protocol s.names = .ok s := by
  have checked := Node.checkHandlers_eq_ok_iff.2 s.handled
  unfold Supervisor.bind
  split
  . next fault failed => cases checked.symm.trans failed
  . rfl

theorem exists_bind {node : Node σ} {protocol : Protocol} (names : Renaming)
    (handled : ∀ channel ∈ protocol.channels.inputs.keys, channel ∈ node.handlers) :
    ∃ s, Supervisor.bind node protocol names = .ok s :=
  ⟨_, bind_self ⟨node, protocol, names, handled⟩⟩

theorem lawful_runOn (s : Supervisor σ) (state : σ) (lines : List (List UInt8))
    (failure : Option Unreadable) :
    Lawful s.protocol s.names (s.runOn state lines failure).2.2 ∧
      ∀ v, (s.runOn state lines failure).1 = .ok v →
        v = (s.protocol.newSession.follow
          (s.runOn state lines failure).2.2.beforeFinish.pushed).verdict := by
  have sync : s.protocol.InSync [] (s.initial state) := ⟨rfl, by simp [Running]⟩
  exact triple_session lines failure [] (s.initial state) .nil sync

/--
A run of a bound node, on any stream and with any names, has a transcript on which the notes of the
node agree. Each beginning of its events is legal; what is received comes on declared inputs that
the node handles, what is accepted goes to declared outputs, and the lines of the accepted messages
are the whole output, also if the run fails. If it does not, its verdict is that of all events that
were pushed before the last call.
-/
theorem run_safe {node : Node σ} {protocol : Protocol} {names : Renaming}
    (bound : Supervisor.bind node protocol names = .ok s) (state : σ) (input : List UInt8) :
    ∃ result final t,
      s.run state input = (result, final, t) ∧
      s.observed.run (state, []) input = (result, (final, t.observations), t) ∧
      (∀ trace, trace <+: t.observations.map Observation.event →
        (protocol.newSession.follow trace).verdict ≠ .unexpected) ∧
      (∀ channel data, .received channel data ∈ t.observations →
        channel ∈ protocol.channels.inputs.keys ∧ channel ∈ node.handlers) ∧
      (∀ channel data, .accepted channel data ∈ t.observations →
        channel ∈ protocol.channels.outputs.keys) ∧
      t.output = String.join (t.observations.filterMap (Observation.line? names)) ∧
      ∀ v, result = .ok v →
        v = (protocol.newSession.follow t.beforeFinish.pushed).verdict := by
  obtain ⟨rfl, rfl, rfl⟩ := bind_eq_ok bound
  obtain ⟨lawful, verdict⟩ := lawful_runOn s state (Lines.cut input) none
  refine ⟨_, _, _, rfl, runOn_observed s state (Lines.cut input) none, ?_, ?_, ?_,
    lawful.output_eq, verdict⟩
  . intro trace le
    rw [Transcript.map_event_observations] at le
    exact lawful.allows_events.mono le
  . intro channel data mem
    have declared := lawful.of_mem_received mem
    exact ⟨declared, s.handled channel declared⟩
  . intro channel data mem
    exact lawful.of_mem_accepted mem

theorem handled_imageFilter : ∀ channel ∈ Builtin.imageFilter.channels.inputs.keys,
    channel ∈ Node.imageFilter.handlers := by
  decide

def imageEcho : Supervisor Unit where
  node := Node.imageFilter
  protocol := Builtin.imageFilter
  names := .identity
  handled := handled_imageFilter

theorem start_imageEcho : ∃ entry entry', imageEcho.start (imageEcho.initial ()) =
    (.ok (), imageEcho.initial (), [.called .init, .logged entry, .logged entry']) := by
  have performed : imageEcho.context.perform (imageEcho.node.init.run.run ())
      imageEcho.protocol.newSession = ((.ok (), ()), imageEcho.protocol.newSession,
        [.logged ⟨_, _, _⟩]) := rfl
  obtain ⟨entry, start⟩ := start_of_perform (s := imageEcho) (p := imageEcho.initial ()) performed
  exact ⟨_, entry, start⟩

def numberedImage : Message := .new "image" (.ofNat 1)

def numberedImageLine : List UInt8 :=
  "\x7b\"topic\":\"image\",\"data\":1\x7d\n".toUTF8.toList

theorem feed_imageEcho : ∃ session entry,
    imageEcho.feed numberedImageLine (imageEcho.initial ()) =
      (.ok (), ⟨(), session, 1⟩,
        [.logged entry, .called (.receive "image" (.ofNat 1)), .sent "image" numberedImage]) ∧
    session.verdict = .enough := by
  have found : Lines.channelMessage? numberedImageLine = some numberedImage := by cbv
  have known : imageEcho.protocol.resolve (imageEcho.eventOf numberedImage) = .ok "JPGImage" := rfl
  have handed : (Builtin.imageFilter.newSession.push (.input "image")).verdict ≠ .unexpected := by
    have waits : (Builtin.imageFilter.newSession.push (.input "image")).verdict = .needMore := by
      cbv
    rw [waits]
    decide
  have accepted : ((Builtin.imageFilter.newSession.push (.input "image")).push
      (.output "image")).verdict = .enough := by cbv
  have resolved : imageEcho.context.protocol.resolve (.output "image") = .ok "JPGImage" := rfl
  have written : imageEcho.context.write "image" (.ofNat 1) _ = _ :=
    Context.write_of_legal resolved (by rw [accepted]; decide)
  obtain ⟨entry, delivered⟩ := deliver_of_perform (s := imageEcho) (m := numberedImage)
    (p := (imageEcho.initial ()).counting numberedImageLine) known handed
    (Context.perform_write written rfl)
  have counted : Lines.numberAfter 0 numberedImageLine = 1 := by cbv
  refine ⟨_, entry, ?_, accepted⟩
  rw [feed_of_channelMessage found, delivered]
  unfold Progress.counting initial
  rw [counted]
  rfl

theorem run_imageEcho : ∃ t, imageEcho.run () numberedImageLine = (.ok .enough, (), t) ∧
    t.observations = [.received "image" (.ofNat 1), .accepted "image" (.ofNat 1)] := by
  obtain ⟨_, _, start⟩ := start_imageEcho
  obtain ⟨session, _, fed, enough⟩ := feed_imageEcho
  have finished : imageEcho.context.perform (imageEcho.node.finish.run.run ()) session =
      ((.ok (), ()), session, [.logged ⟨_, _, _⟩]) := rfl
  obtain ⟨entries, close⟩ :=
    close_of_perform (s := imageEcho) (p := ⟨(), session, 1⟩) finished
  have cut : Lines.cut numberedImageLine = [numberedImageLine] := by decide +kernel
  have logged : Transcript.observations (entries.map .logged) = [] := by
    simp [Transcript.observations, Occurrence.observation?]
  unfold Supervisor.run runOn Supervisor.session
  rw [cut, bind_of_ok start, feedAll, bind_assoc, bind_of_ok fed, feedAll, Activity.pure_bind,
    endReading, close, enough]
  refine ⟨_, rfl, ?_⟩
  simp only [Transcript.observations_append, logged]
  rfl

/-- The image filter is handed an image, and its answer is the output of the run. -/
theorem run_safe_imageFilter :
    Supervisor.bind Node.imageFilter Builtin.imageFilter .identity = .ok imageEcho ∧
    ∃ t, imageEcho.run () numberedImageLine = (.ok .enough, (), t) ∧
      t.observations = [.received "image" (.ofNat 1), .accepted "image" (.ofNat 1)] ∧
      imageEcho.observed.run ((), []) numberedImageLine =
        (.ok .enough, ((), t.observations), t) ∧
      (∀ trace, trace <+: [Event.input "image", Event.output "image"] →
        (Builtin.imageFilter.newSession.follow trace).verdict ≠ .unexpected) ∧
      "image" ∈ Builtin.imageFilter.channels.inputs.keys ∧ "image" ∈ Node.imageFilter.handlers ∧
      "image" ∈ Builtin.imageFilter.channels.outputs.keys ∧
      t.output = "\x7b\"topic\":\"image\",\"data\":1\x7d\n" ∧
      .enough = (Builtin.imageFilter.newSession.follow t.beforeFinish.pushed).verdict := by
  have bound : Supervisor.bind Node.imageFilter Builtin.imageFilter .identity = .ok imageEcho :=
    bind_self imageEcho
  obtain ⟨t, run, learned⟩ := run_imageEcho
  obtain ⟨result, final, t', run', observed, begins, received, accepted, output, verdict⟩ :=
    run_safe bound () numberedImageLine
  cases run.symm.trans run'
  rw [learned] at begins received accepted output
  obtain ⟨declared, handled⟩ := received "image" (.ofNat 1) (by simp)
  have sent := accepted "image" (.ofNat 1) (by simp)
  refine ⟨bound, t, run, learned, observed, begins, declared, handled, sent, ?_,
    verdict .enough rfl⟩
  rw [output]
  cbv

end Supervisor

end Interaction
