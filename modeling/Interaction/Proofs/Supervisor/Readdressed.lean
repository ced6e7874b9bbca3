import Interaction.Proofs.Message.Incoming
import Interaction.Proofs.Message.Lines
import Interaction.Proofs.Supervisor.Likeness
import Interaction.Proofs.Supervisor.Safety
import Interaction.Proofs.Table

/-!
This module contains the proof that the names on the wire are names only: a run with a renaming is a
run without one on the renamed messages, and its output bears other topics.
-/

namespace Interaction

/-- What happens, with the topic that some names give to the channel of a message that goes out. -/
def Occurrence.addressed (names : Renaming) : Occurrence → Occurrence
  | .sent channel message => .sent channel { message with topic := names.topic channel }
  | o => o

/-- A message for the node under its local name. -/
def Message.localized (names : Renaming) (m : Message) : Message :=
  match Control.commandOf? m.topic with
  | some _ => m
  | none => { m with topic := names.localName m.topic }

def Message.addressed (names : Renaming) (m : Message) : Message :=
  { m with topic := names.topic m.topic }

def Likeness.readdressed (names : Renaming) : Likeness where
  failures := Eq
  transcripts t u := t = u.map (.addressed names)
  nil := rfl
  append := by
    rintro _ u _ u' rfl rfl
    exact List.map_append.symm

namespace Transcript

variable {t u : Transcript} {names : Renaming}

theorem calls_map_addressed (u : Transcript) :
    Transcript.calls (u.map (.addressed names)) = u.calls := by
  unfold calls
  rw [List.filterMap_map]
  apply List.filterMap_congr
  intro o _
  cases o <;> rfl

theorem log_map_addressed (u : Transcript) :
    Transcript.log (u.map (.addressed names)) = u.log := by
  unfold log
  rw [List.filterMap_map]
  apply List.filterMap_congr
  intro o _
  cases o <;> rfl

theorem messages_map_addressed
    (named : ∀ channel message, .sent channel message ∈ u → message.topic = channel) :
    Transcript.messages (u.map (.addressed names)) = u.messages.map (.addressed names) := by
  unfold messages
  rw [List.filterMap_map, List.map_filterMap]
  apply List.filterMap_congr
  intro o mem
  cases o with
  | sent channel message =>
    have same := named channel message mem
    subst same
    rfl
  | _ => rfl

end Transcript

namespace Context

variable {α : Type}

def withNames (ctx : Context) (names : Renaming) : Context := { ctx with names }

theorem write_withNames (ctx : Context) (names : Renaming) (channel : String) (data : Json)
    (session : Session) :
    ctx.write channel data session =
      (((ctx.withNames names).write channel data session).1,
        ((ctx.withNames names).write channel data session).2.1,
        ((ctx.withNames names).write channel data session).2.2.map (.addressed ctx.names)) := by
  match found : ctx.protocol.resolve (.output channel) with
  | .error fault =>
    have found' : (ctx.withNames names).protocol.resolve (.output channel) = .error fault := found
    rw [write_of_unknown found, write_of_unknown found']
    rfl
  | .ok type =>
    have found' : (ctx.withNames names).protocol.resolve (.output channel) = .ok type := found
    by_cases illegal : (session.push (.output channel)).verdict = .unexpected
    . rw [write_of_illegal found illegal, write_of_illegal found' illegal]
      rfl
    . rw [write_of_legal found illegal, write_of_legal found' illegal]
      rfl

theorem perform_withNames (ctx : Context) (names : Renaming) (e : Effect α) (session : Session) :
    ctx.perform e session =
      (((ctx.withNames names).perform e session).1, ((ctx.withNames names).perform e session).2.1,
        ((ctx.withNames names).perform e session).2.2.map (.addressed ctx.names)) := by
  induction e generalizing session with
  | done a => rfl
  | write channel data next ih =>
    unfold perform
    rw [ctx.write_withNames names]
    simp only [ih, List.map_append]
  | log text next ih =>
    unfold perform
    simp only [ih session]
    rfl

end Context

namespace Supervisor

open Activity

variable {σ α : Type} {s : Supervisor σ} {names : Renaming} {m m' : Message}

def withNames (s : Supervisor σ) (names : Renaming) : Supervisor σ := { s with names }

@[simp]
theorem node_withNames : (s.withNames names).node = s.node := rfl

@[simp]
theorem protocol_withNames : (s.withNames names).protocol = s.protocol := rfl

@[simp]
theorem names_withNames : (s.withNames names).names = names := rfl

inductive Counterpart (names names' : Renaming) (m m' : Message) : Prop where
  | control (command : String) (found : Control.commandOf? m.topic = some command)
    (topic : m'.topic = m.topic) (data : m'.data = m.data)
  | channel (plain : Control.commandOf? m.topic = none)
    (plain' : Control.commandOf? m'.topic = none)
    (channel : names.localName m.topic = names'.localName m'.topic) (data : m'.data = m.data)

theorem alike_log (level : LogLevel) (text : String) :
    Alike (.readdressed s.names) (s.log level text) ((s.withNames names).log level text) :=
  Alike.record rfl

theorem alike_stop (fault : Fault) :
    Alike (.readdressed s.names) (s.stop fault : Activity σ α)
      ((s.withNames names).stop fault) := by
  unfold stop
  apply (alike_log _ _).bind
  intro _
  exact Alike.fail rfl

theorem alike_activityCall (c : Call) (callback : Callback σ Unit) :
    Alike (.readdressed s.names) (.call s.context c callback)
      (.call (s.withNames names).context c callback) := by
  intro p q same
  have performed :=
    s.context.perform_withNames names (callback.run.run p.state) p.session
  rw [same.state, same.session] at performed
  unfold Activity.call
  rw [same.state, same.session, performed]
  exact ⟨.ok _, ⟨rfl, rfl⟩, rfl⟩

theorem alike_call (c : Call) (callback : Callback σ Unit) :
    Alike (.readdressed s.names) (s.call c callback) ((s.withNames names).call c callback) := by
  unfold Supervisor.call
  apply (alike_activityCall c callback).bind
  intro result
  cases result with
  | ok a => exact Alike.pure a
  | error failure => exact Alike.fail rfl

theorem alike_start : Alike (.readdressed s.names) s.start (s.withNames names).start := by
  unfold start
  apply (alike_call _ _).bind
  intro _
  exact alike_log _ _

theorem alike_setConfig (key : String) (value : Json) :
    Alike (.readdressed s.names) (s.setConfig key value)
      ((s.withNames names).setConfig key value) := by
  unfold setConfig
  apply Alike.progress
  intro p q same
  rw [same.state, node_withNames]
  generalize s.node.setConfig key value q.state = changed
  obtain ⟨result, state⟩ := changed
  apply Alike.bind (Alike.record rfl)
  intro _
  apply Alike.bind
  . exact Alike.of_quiet fun p q same => ⟨(), _, _, rfl, rfl, ⟨rfl, same.session⟩⟩
  intro _
  cases result with
  | ok _ => exact alike_call _ _
  | error fault =>
    apply (alike_log _ _).bind
    intro _
    exact alike_call _ _

theorem alike_deliver (channel : s.names.localName m.topic = names.localName m'.topic)
    (data : m'.data = m.data) :
    Alike (.readdressed s.names) (s.deliver m) ((s.withNames names).deliver m') := by
  unfold deliver
  rw [protocol_withNames, names_withNames, node_withNames]
  simp only [channel, data]
  split
  . exact alike_stop _
  . apply Alike.progress
    intro p q same
    rw [same.session]
    apply (Alike.setSession _).bind
    intro _
    by_cases illegal :
      (q.session.push (.input (names.localName m'.topic))).verdict = .unexpected
    . rw [if_pos illegal, if_pos illegal]
      exact alike_stop _
    . rw [if_neg illegal, if_neg illegal]
      apply (alike_log _ _).bind
      intro _
      apply (alike_activityCall _ _).bind
      intro result
      cases result with
      | ok _ => exact Alike.pure ()
      | error failure =>
        apply (alike_log _ _).bind
        intro _
        exact Alike.fail rfl

theorem alike_handle (h : Counterpart s.names names m m') :
    Alike (.readdressed s.names) (s.handle m) ((s.withNames names).handle m') := by
  unfold handle
  cases h with
  | control command found topic data =>
    rw [Incoming.classify_congr found topic data]
    match classified : Incoming.classify m with
    | .error fault => exact Alike.fail rfl
    | .ok (.control (.setConfig key value)) => exact alike_setConfig key value
    | .ok (.control (.unknown command)) => exact alike_log _ _
    | .ok (.channel _) => exact absurd classified (Incoming.classify_ne_channel found)
  | channel plain plain' channel data =>
    rw [Incoming.classify_of_plain plain, Incoming.classify_of_plain plain']
    exact alike_deliver channel data

theorem alike_close : Alike (.readdressed s.names) s.close (s.withNames names).close := by
  unfold close
  apply (alike_log _ _).bind
  intro _
  apply Alike.progress
  intro p q same
  rw [same.session]
  have ended : Alike (.readdressed s.names)
      (do s.call .finish s.node.finish; pure q.session.verdict)
      (do (s.withNames names).call .finish s.node.finish; pure q.session.verdict) := by
    apply (alike_call _ _).bind
    intro _
    exact Alike.pure _
  match verdict : q.session.verdict with
  | .unexpected =>
    rw [verdict] at ended
    simp only [verdict]
    exact (alike_log _ _).bind fun _ => ended
  | .needMore =>
    rw [verdict] at ended
    simp only [verdict]
    exact (alike_log _ _).bind fun _ => ended
  | .enough =>
    rw [verdict] at ended
    simp only [verdict]
    exact ended

theorem paired_of_read {ms ms' : List Message} {lines lines' : List (List UInt8)}
    (read : lines.filterMap Lines.parse = ms.map .ok)
    (read' : lines'.filterMap Lines.parse = ms'.map .ok)
    (same : List.Forall₂ (Counterpart s.names names) ms ms') :
    Paired (.readdressed s.names) s (s.withNames names) lines lines' := by
  induction lines generalizing ms ms' lines' with
  | nil =>
    cases same with
    | cons => cases read
    | nil =>
      induction lines' with
      | nil => exact .nil
      | cons line' lines' ih =>
        rw [List.map_nil, List.filterMap_eq_nil_iff, List.forall_mem_cons] at read'
        exact .right (alike_blank_feed read'.1) (ih (List.filterMap_eq_nil_iff.2 read'.2))
  | cons line lines ih =>
    match found : Lines.parse line with
    | none =>
      rw [List.filterMap_cons_none found] at read
      exact .left (alike_feed_of_blank found) (ih read read' same)
    | some item =>
      rw [List.filterMap_cons_some found] at read
      cases same with
      | nil => cases read
      | @cons m m' ms ms' first others =>
        obtain ⟨rfl, rest⟩ := List.cons.inj read
        -- here the other stream may have blank lines before its next message
        induction lines' with
        | nil => cases read'
        | cons line' lines' ih' =>
          match found' : Lines.parse line' with
          | none =>
            rw [List.filterMap_cons_none found'] at read'
            exact .right (alike_blank_feed found') (ih' read')
          | some item' =>
            rw [List.filterMap_cons_some found'] at read'
            obtain ⟨rfl, rest'⟩ := List.cons.inj read'
            exact .both (alike_feed found found' (alike_handle first)) (ih rest rest' others)

theorem counterpart_localized
    (plain : ∀ topic channel command, s.names.inbound.get? topic = some channel →
      channel ≠ Control.topicStart ++ command) (m : Message) :
    Counterpart s.names .identity m (m.localized s.names) := by
  unfold Message.localized
  match found : Control.commandOf? m.topic with
  | some command => exact .control command found rfl rfl
  | none =>
    refine .channel found ?_ rfl rfl
    rw [Incoming.commandOf?_eq_none_iff] at found ⊢
    intro command
    simp only [Renaming.localName]
    match entry : s.names.inbound.get? m.topic with
    | none => exact found command
    | some channel => exact plain m.topic channel command entry

/--
A run on a stream of messages, with names none of which makes a channel an instruction, is the run
without names on a stream of the localized messages: the result, the calls of the node and the log
are the same, and the output has the same lines under the topics of their channels.
-/
theorem run_localized (s : Supervisor σ)
    (plain : ∀ topic channel command, s.names.inbound.get? topic = some channel →
      channel ≠ Control.topicStart ++ command)
    (state : σ) (ms : List Message) (input input' : List UInt8)
    (read : (Lines.read input).map (·.2) = ms.map .ok)
    (read' : (Lines.read input').map (·.2) = (ms.map (.localized s.names)).map .ok) :
    ∃ result final t t',
      s.run state input = (result, final, t) ∧
      (s.withNames .identity).run state input' = (result, final, t') ∧
      t = t'.map (.addressed s.names) ∧ t.calls = t'.calls ∧ t.log = t'.log ∧
      t'.output = String.join (t'.messages.map Message.line) ∧
      t.output = String.join (t'.messages.map fun m => (m.addressed s.names).line) := by
  rw [Lines.map_snd_read] at read read'
  have same : List.Forall₂ (Counterpart s.names .identity) ms (ms.map (.localized s.names)) := by
    rw [List.forall₂_map_right_iff, List.forall₂_same]
    exact fun m _ => counterpart_localized plain m
  have start : Alike (.readdressed s.names) s.start (s.withNames .identity).start := alike_start
  have alike :=
    run_of_alike protocol_withNames.symm start alike_close (paired_of_read read read' same) state
  have lawful := (lawful_runOn (s.withNames .identity) state (Lines.cut input') none).1
  match run : s.run state input, run' : (s.withNames .identity).run state input' with
  | (result, final, t), (result', final', t') =>
    rw [run, run'] at alike
    change Lawful _ _ ((s.withNames .identity).run state input').2.2 at lawful
    rw [run'] at lawful
    obtain ⟨results, states, transcripts⟩ := alike
    have sameResult : result' = result := by
      cases results with
      | ok v => rfl
      | error like => exact congrArg Except.error like.symm
    have named : ∀ channel message, .sent channel message ∈ t' → message.topic = channel := by
      intro channel message mem
      rw [(lawful.of_mem_sent mem).2]
      rfl
    have transcripts : t = t'.map (.addressed s.names) := transcripts
    have sameState : final' = final := states.symm
    refine ⟨result, final, t, t', rfl, ?_, transcripts, ?_, ?_, rfl, ?_⟩
    . rw [sameResult, sameState]
    . rw [transcripts, Transcript.calls_map_addressed]
    . rw [transcripts, Transcript.log_map_addressed]
    . unfold Transcript.output
      rw [transcripts, Transcript.messages_map_addressed named, List.map_map]
      rfl

def cameraFilter : Supervisor Unit where
  node := Node.imageFilter
  protocol := Builtin.imageFilter
  names := ⟨.ofList [("camera", "image")], .ofList [("image", "filtered")]⟩
  handled := by decide

def topicLine (topic : String) : List UInt8 :=
  ("\x7b\"topic\":\"" ++ topic ++ "\"\x7d\n").toUTF8.toList

theorem run_localized_cameraFilter :
    ∃ final t t', cameraFilter.run () (topicLine "camera") = (.ok .enough, final, t) ∧
      (cameraFilter.withNames .identity).run () (topicLine "image") = (.ok .enough, final, t') ∧
      t.output = "\x7b\"topic\":\"filtered\",\"data\":null\x7d\n" ∧
      t'.output = "\x7b\"topic\":\"image\",\"data\":null\x7d\n" ∧
      t.calls = t'.calls ∧ t.log = t'.log := by
  have plain : ∀ topic channel command,
      cameraFilter.names.inbound.get? topic = some channel →
        channel ≠ Control.topicStart ++ command := by
    intro topic channel command entry
    rw [Table.get?_eq_some_iff] at entry
    have same : channel = "image" := (Prod.mk.inj (List.mem_singleton.1 entry)).2
    rw [same]
    exact Incoming.commandOf?_eq_none_iff.1 rfl command
  have read : (Lines.read (topicLine "camera")).map (·.2) =
      [Message.new "camera" .null].map .ok := by cbv
  have read' : (Lines.read (topicLine "image")).map (·.2) =
      ([Message.new "camera" .null].map (.localized cameraFilter.names)).map .ok := by cbv
  obtain ⟨result, final, t, t', run, run', _, calls, log, output', output⟩ :=
    run_localized cameraFilter plain () _ _ _ read read'
  have enough : (cameraFilter.run () (topicLine "camera")).1 = .ok .enough := by cbv
  have messages : ((cameraFilter.withNames .identity).run () (topicLine "image")).2.2.messages =
      [.new "image" .null] := by cbv
  rw [run] at enough
  rw [run'] at messages
  rw [messages] at output output'
  subst enough
  exact ⟨final, t, t', run, run', output, output', calls, log⟩

end Supervisor

end Interaction
