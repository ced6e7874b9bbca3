import Interaction.Proofs.Channels
import Interaction.Proofs.Message.Incoming
import Interaction.Proofs.Message.Lines
import Interaction.Proofs.Supervisor.Steps
import Mathlib.Data.List.Forall2

/-!
This module contains supervisors of nodes that answer each message before the next one: whatever
ordinary lines a stream holds, the session is a new one again after each of them.
-/

namespace Interaction

namespace Transcript

theorem messages_append (t u : Transcript) :
    Transcript.messages (t ++ u) = t.messages ++ u.messages :=
  List.filterMap_append

theorem messages_logged (entries : List LogEntry) :
    Transcript.messages (entries.map .logged) = [] := by
  simp [messages]

theorem count_output (t : Transcript) : t.output.toList.count '\n' = t.messages.length := by
  unfold output
  induction t.messages with
  | nil => rfl
  | cons m rest ih =>
    rw [List.map_cons, String.join_cons, String.toList_append, List.count_append, ih,
      m.count_line, List.length_cons, Nat.add_comm]

end Transcript

inductive Ordinary (protocol : Protocol) (line : List UInt8) : Prop where
  | blank (text : String) (decoded : Text.decode? line = some text)
    (white : ∀ c ∈ text.toList, Text.isBlank c = true)
  | input (m : Message) (read : Lines.parse line = some (.ok m))
    (declared : m.topic ∈ protocol.channels.inputs.keys)
  | setConfig (m : Message) (read : Lines.parse line = some (.ok m))
    (topic : m.topic = Control.topicStart ++ "set_config") (members : List (String × Json))
    (data : m.data = .object members) (key : String) (value : Json)
    (hasKey : members.lookup "key" = some (.string key))
    (hasValue : members.lookup "value" = some value)
  | unknown (m : Message) (read : Lines.parse line = some (.ok m)) (command : String)
    (topic : m.topic = Control.topicStart ++ command) (other : command ≠ "set_config")

namespace Lines

variable {line : List UInt8} {m : Message}

theorem channelMessage?_of_blank (blank : parse line = none) : channelMessage? line = none := by
  unfold channelMessage?
  rw [blank]

theorem channelMessage?_of_channel (read : parse line = some (.ok m))
    (classified : Incoming.classify m = .ok (.channel m)) : channelMessage? line = some m := by
  unfold channelMessage?
  rw [read]
  simp only [classified]

theorem channelMessage?_of_control {control : Control} (read : parse line = some (.ok m))
    (classified : Incoming.classify m = .ok (.control control)) : channelMessage? line = none := by
  unfold channelMessage?
  rw [read]
  simp only [classified]

end Lines

def Context.Sends {σ : Type} (ctx : Context) (callback : Callback σ Unit)
    (session session' : Session) (P : List Message → Prop) : Prop :=
  ∀ state, ∃ state' t,
    ctx.perform (callback.run.run state) session = ((.ok (), state'), session', t) ∧ P t.messages

namespace Supervisor

variable {σ : Type} {s : Supervisor σ} {m n : Activity σ Unit} {asked asked' : List Message}
variable {asks : Message → Bool} {Reply : Message → Message → Prop}

/--
Whether a node answers, in any state: of the messages on its inputs, it sends one reply to each of
those that ask for one. The session before a message and after the reply is a new one.
-/
structure Responsive (s : Supervisor σ) (asks : Message → Bool)
    (Reply : Message → Message → Prop) : Prop where
  names_eq : s.names = .identity
  enough : s.protocol.newSession.verdict = .enough
  plain : ∀ channel ∈ s.protocol.channels.inputs.keys, Control.commandOf? channel = none
  init : s.context.Sends s.node.init s.protocol.newSession s.protocol.newSession (· = [])
  configured : ∀ key value, s.context.Sends (s.node.configured key value)
    s.protocol.newSession s.protocol.newSession (· = [])
  finish : s.context.Sends s.node.finish s.protocol.newSession s.protocol.newSession (· = [])
  legal : ∀ channel ∈ s.protocol.channels.inputs.keys,
    (s.protocol.newSession.push (.input channel)).verdict ≠ .unexpected
  receive : ∀ m : Message, m.topic ∈ s.protocol.channels.inputs.keys →
    s.context.Sends (s.node.receive m.topic m.data)
      (s.protocol.newSession.push (.input m.topic)) s.protocol.newSession
      (List.Forall₂ Reply ([m].filter asks))

def Answers (s : Supervisor σ) (Reply : Message → Message → Prop) (m : Activity σ Unit)
    (asked : List Message) : Prop :=
  ∀ p : Progress σ, p.session = s.protocol.newSession →
    ∃ p' t, m p = (.ok (), p', t) ∧ p'.session = s.protocol.newSession ∧
      List.Forall₂ Reply asked t.messages

namespace Answers

theorem pure : s.Answers Reply (Pure.pure ()) [] :=
  fun p rest => ⟨p, [], rfl, rest, .nil⟩

theorem log {level : LogLevel} {text : String} : s.Answers Reply (s.log level text) [] :=
  fun p rest => ⟨p, _, rfl, rest, .nil⟩

theorem bind (first : s.Answers Reply m asked) (last : s.Answers Reply n asked') :
    s.Answers Reply (do m; n) (asked ++ asked') := by
  intro p rest
  obtain ⟨p', t, eq, rest', replies⟩ := first p rest
  obtain ⟨p'', u, eq', rest'', replies'⟩ := last p' rest'
  refine ⟨p'', t ++ u, ?_, rest'', ?_⟩
  . rw [Activity.bind_of_ok eq, eq']
  . rw [Transcript.messages_append]
    exact List.rel_append replies replies'

theorem call {callback : Callback σ Unit} (c : Call)
    (quiet : s.context.Sends callback s.protocol.newSession s.protocol.newSession (· = [])) :
    s.Answers Reply (s.call c callback) [] := by
  intro p rest
  obtain ⟨state', t, performed, none⟩ := quiet p.state
  nth_rewrite 1 [← rest] at performed
  refine ⟨_, _, call_of_perform c performed, rfl, ?_⟩
  have silent : Transcript.messages (.called c :: t) = [] := none
  rw [silent]
  exact .nil

theorem progress {f : Progress σ → Activity σ Unit} (h : ∀ q, s.Answers Reply (f q) asked) :
    s.Answers Reply (Activity.progress >>= f) asked :=
  fun p rest => h p p rest

end Answers

namespace Responsive

variable (responsive : s.Responsive asks Reply)
include responsive

theorem answers_setConfig (key : String) (value : Json) :
    s.Answers Reply (s.setConfig key value) [] := by
  unfold setConfig
  apply Answers.progress
  intro q
  have configured :
      s.Answers Reply (s.call (.configured key value) (s.node.configured key value)) [] :=
    Answers.call _ (responsive.configured key value)
  match s.node.setConfig key value q.state with
  | (result, state) =>
    have called : s.Answers Reply (.record (.called (.setConfig key value))) [] :=
      fun p rest => ⟨p, _, rfl, rest, .nil⟩
    have changed : s.Answers Reply (fun p => (.ok (), { p with state }, [])) [] :=
      fun p rest => ⟨_, _, rfl, rest, .nil⟩
    match result with
    | .ok () => exact called.bind (changed.bind configured)
    | .error fault => exact called.bind (changed.bind (Answers.log.bind configured))

theorem answers_deliver {m : Message} (declared : m.topic ∈ s.protocol.channels.inputs.keys) :
    s.Answers Reply (s.deliver m) ([m].filter asks) := by
  intro p rest
  have same : s.names.localName m.topic = m.topic := by
    rw [responsive.names_eq]
    rfl
  obtain ⟨type, known⟩ := Table.mem_keys_iff.1 declared
  have known : s.protocol.resolve (.input m.topic) = .ok type := Protocol.resolve_eq_ok_iff.2 known
  have legal := responsive.legal m.topic declared
  obtain ⟨state', t, performed, replies⟩ := responsive.receive m declared p.state
  unfold deliver
  simp only [same, known]
  rw [Activity.progress_bind, Activity.setSession_bind, rest, if_neg legal, log_bind,
    Activity.bind_of_ok (Activity.call_of_perform _ performed)]
  exact ⟨_, _, rfl, rfl, by simpa [Transcript.messages, Pure.pure] using replies⟩

theorem answers_feed {line : List UInt8} (ordinary : Ordinary s.protocol line) :
    s.Answers Reply (s.feed line) ((Lines.channelMessage? line).toList.filter asks) := by
  intro p rest
  rw [feed_eq]
  cases ordinary with
  | blank text decoded white =>
    have read := Lines.parse_of_blank decoded white
    rw [read, Lines.channelMessage?_of_blank read]
    exact Answers.pure (p.counting line) rest
  | input m read declared =>
    have classified := Incoming.classify_of_plain (responsive.plain m.topic declared)
    rw [read, Lines.channelMessage?_of_channel read classified]
    unfold handle
    simp only [classified]
    exact responsive.answers_deliver declared (p.counting line) rest
  | setConfig m read topic members data key value hasKey hasValue =>
    have classified := Incoming.classify_of_setConfig topic data hasKey hasValue
    rw [read, Lines.channelMessage?_of_control read classified]
    unfold handle
    simp only [classified]
    exact responsive.answers_setConfig key value (p.counting line) rest
  | unknown m read command topic other =>
    have classified := Incoming.classify_of_unknown topic other
    rw [read, Lines.channelMessage?_of_control read classified]
    unfold handle
    simp only [classified]
    exact Answers.log (p.counting line) rest

theorem answers_feedAll {lines : List (List UInt8)}
    (ordinary : ∀ line ∈ lines, Ordinary s.protocol line) :
    s.Answers Reply (s.feedAll lines) ((lines.filterMap Lines.channelMessage?).filter asks) := by
  induction lines with
  | nil => exact Answers.pure
  | cons line lines ih =>
    rw [List.forall_mem_cons] at ordinary
    have first := responsive.answers_feed ordinary.1
    have all := first.bind (ih ordinary.2)
    rw [← List.filter_append] at all
    have messages : (line :: lines).filterMap Lines.channelMessage? =
        (Lines.channelMessage? line).toList ++ lines.filterMap Lines.channelMessage? := by
      cases found : Lines.channelMessage? line with
      | none => simp [found]
      | some m => simp [found]
    rw [messages]
    exact all

theorem run_eq_enough (state : σ) {input : List UInt8}
    (ordinary : ∀ line ∈ Lines.cut input, Ordinary s.protocol line) :
    ∃ final t, s.run state input = (.ok .enough, final, t) ∧
      List.Forall₂ Reply ((Lines.channelMessages input).filter asks) t.messages := by
  have started : s.Answers Reply s.start [] := by
    unfold start
    exact (Answers.call .init responsive.init).bind .log
  have fed := started.bind (responsive.answers_feedAll ordinary)
  obtain ⟨p, t, eq, rest, replies⟩ := fed (s.initial state) rfl
  obtain ⟨state', u, performed, silent⟩ := responsive.finish p.state
  nth_rewrite 1 [← rest] at performed
  obtain ⟨entries, close⟩ := close_of_perform performed
  have run : s.session (Lines.cut input) none (s.initial state) =
      (do (do s.start; s.feedAll (Lines.cut input)); s.close : Activity σ Verdict)
        (s.initial state) := by
    unfold session
    rw [Activity.bind_assoc, endReading]
  rw [Activity.bind_of_ok eq, close, rest, responsive.enough] at run
  unfold Supervisor.run runOn
  rw [run]
  refine ⟨_, _, rfl, ?_⟩
  have ended : Transcript.messages (.called .finish :: u) = [] := silent
  rw [Transcript.messages_append, Transcript.messages_append, Transcript.messages_logged, ended,
    List.append_nil, List.append_nil]
  exact replies

end Responsive

end Supervisor

end Interaction
