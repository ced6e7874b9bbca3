import Interaction.Proofs.Supervisor.Lawful

/-!
This module contains nodes that note down what they receive and which of their messages are
accepted. Such a node runs as the one without notes, and its notes agree with the transcript.
-/

namespace Interaction

/-- What a node learns about its channels. -/
inductive Observation where
  | received (channel : String) (data : Json)
  | accepted (channel : String) (data : Json)

namespace Observation

def event : Observation → Event
  | .received channel _ => .input channel
  | .accepted channel _ => .output channel

def line? (names : Renaming) : Observation → Option String
  | .received _ _ => none
  | .accepted channel data => some (Message.new (names.topic channel) data).line

end Observation

def Occurrence.observation? : Occurrence → Option Observation
  | .called (.receive channel data) => some (.received channel data)
  | .sent channel message => some (.accepted channel message.data)
  | _ => none

def Transcript.observations (t : Transcript) : List Observation :=
  t.filterMap Occurrence.observation?

def Effect.observed {α : Type} : Effect α → List Observation → Effect (α × List Observation)
  | .done a, notes => .done (a, notes)
  | .write channel data next, notes => .write channel data fun answer =>
    match answer with
    | .ok () => (next answer).observed (notes ++ [.accepted channel data])
    | .error _ => (next answer).observed notes
  | .log text next, notes => .log text (next.observed notes)

def Callback.observed {σ : Type} (known : List Observation) (callback : Callback σ Unit) :
    Callback (σ × List Observation) Unit :=
  ExceptT.mk fun (state, notes) => do
    let ((result, state), notes) ← ((callback.run.run state).observed (notes ++ known))
    pure (result, (state, notes))

def Node.observed {σ : Type} (node : Node σ) : Node (σ × List Observation) where
  name := node.name
  handlers := node.handlers
  init := node.init.observed []
  receive channel data := (node.receive channel data).observed [.received channel data]
  finish := node.finish.observed []
  config := fun (state, _) => node.config state
  setConfig key value := fun (state, notes) =>
    let (result, state) := node.setConfig key value state
    (result, (state, notes))
  configured key value := (node.configured key value).observed []

def Supervisor.observed {σ : Type} (s : Supervisor σ) : Supervisor (σ × List Observation) :=
  { node := s.node.observed, protocol := s.protocol, names := s.names, handled := s.handled }

def Progress.observed {σ : Type} (p : Progress σ) (notes : List Observation) :
    Progress (σ × List Observation) :=
  ⟨(p.state, notes), p.session, p.line⟩

@[simp]
theorem Progress.session_observed {σ : Type} (p : Progress σ) (notes : List Observation) :
    (p.observed notes).session = p.session := rfl

namespace Transcript

theorem observations_append (t u : Transcript) :
    (t ++ u).observations = t.observations ++ u.observations :=
  List.filterMap_append

theorem observations_cons (o : Occurrence) (t : Transcript) :
    observations (o :: t) = o.observation?.toList ++ t.observations := by
  unfold observations
  cases eq : o.observation? <;> simp [eq]

theorem map_event_observations (t : Transcript) :
    t.observations.map Observation.event = t.events := by
  rw [events_eq, observations, List.map_filterMap]
  apply List.filterMap_congr
  intro o _
  cases o with
  | called call => cases call <;> rfl
  | _ => rfl

end Transcript

namespace Lawful

variable {protocol : Protocol} {names : Renaming} {t : Transcript} {channel : String} {data : Json}

theorem of_mem_received (h : Lawful protocol names t)
    (mem : .received channel data ∈ t.observations) : channel ∈ protocol.channels.inputs.keys := by
  obtain ⟨o, inside, eq⟩ := List.mem_filterMap.1 mem
  cases o with
  | called call =>
    cases call with
    | receive =>
      cases eq
      exact h.of_mem_receive inside
    | _ => cases eq
  | _ => cases eq

theorem of_mem_accepted (h : Lawful protocol names t)
    (mem : .accepted channel data ∈ t.observations) : channel ∈ protocol.channels.outputs.keys := by
  obtain ⟨o, inside, eq⟩ := List.mem_filterMap.1 mem
  cases o with
  | called call => cases call <;> cases eq
  | sent =>
    cases eq
    exact (h.of_mem_sent inside).1
  | _ => cases eq

theorem output_eq (h : Lawful protocol names t) :
    t.output = String.join (t.observations.filterMap (Observation.line? names)) := by
  unfold Transcript.output Transcript.messages Transcript.observations
  rw [List.map_filterMap, List.filterMap_filterMap]
  apply congrArg String.join
  apply List.filterMap_congr
  intro o mem
  cases o with
  | called call => cases call <;> rfl
  | sent channel message =>
    have eq := (h.of_mem_sent mem).2
    simp [Occurrence.observation?, Observation.line?, ← eq]
  | _ => rfl

end Lawful

namespace Context

variable {α β : Type} {ctx : Context}

theorem perform_map (f : α → β) (e : Effect α) (session : Session) :
    ctx.perform (e.bind fun a => .done (f a)) session =
      (f (ctx.perform e session).1, (ctx.perform e session).2) := by
  induction e generalizing session with
  | done a => rfl
  | write channel data next ih =>
    unfold Effect.bind perform
    simp only [ih]
  | log text next ih =>
    unfold Effect.bind perform
    simp only [ih]

theorem observations_write {channel : String} {data : Json} {session : Session} :
    (ctx.write channel data session).2.2.observations =
      match (ctx.write channel data session).1 with
      | .ok () => [.accepted channel data]
      | .error _ => [] := by
  unfold write
  split
  . rfl
  . simp only
    split <;> rfl

theorem perform_observed (e : Effect α) (notes : List Observation) (session : Session) :
    ctx.perform (e.observed notes) session =
      (((ctx.perform e session).1, notes ++ (ctx.perform e session).2.2.observations),
        (ctx.perform e session).2) := by
  induction e generalizing notes session with
  | done a =>
    unfold Effect.observed perform Transcript.observations
    simp
  | write channel data next ih =>
    have noted := @observations_write ctx channel data session
    unfold Effect.observed perform
    match eq : ctx.write channel data session with
    | (.ok (), session', now) =>
      rw [eq] at noted
      simp only at noted
      simp only [ih, Transcript.observations_append, noted, List.append_assoc]
    | (.error fault, session', now) =>
      rw [eq] at noted
      simp only at noted
      simp only [ih, Transcript.observations_append, noted, List.nil_append]
  | log text next ih =>
    unfold Effect.observed perform
    simp only [ih]
    rfl

end Context

namespace Activity

variable {σ α β : Type} {p : Progress σ} {notes : List Observation}

/-- Whether an activity with notes does as one without, and notes down what the node learns. -/
def Simulates (p : Progress σ) (notes : List Observation) (m : Activity (σ × List Observation) α)
    (n : Activity σ α) : Prop :=
  m (p.observed notes) =
    ((n p).1, (n p).2.1.observed (notes ++ (n p).2.2.observations), (n p).2.2)

namespace Simulates

theorem of_quiet {m : Activity (σ × List Observation) α} {n : Activity σ α}
    {result : Except Failure α} {p' : Progress σ} (h : n p = (result, p', []))
    (h' : m (p.observed notes) = (result, p'.observed notes, [])) : Simulates p notes m n := by
  unfold Simulates
  rw [h, h', Transcript.observations, List.filterMap_nil, List.append_nil]

theorem bind {m : Activity (σ × List Observation) α} {n : Activity σ α}
    {f : α → Activity (σ × List Observation) β} {g : α → Activity σ β}
    (first : Simulates p notes m n)
    (last : ∀ a p' t, n p = (.ok a, p', t) →
      Simulates p' (notes ++ t.observations) (f a) (g a)) :
    Simulates p notes (m >>= f) (n >>= g) := by
  unfold Simulates at first
  match eq : n p with
  | (.error e, p', t) =>
    rw [eq] at first
    unfold Simulates
    simp only [Bind.bind, first, eq]
  | (.ok a, p', t) =>
    rw [eq] at first
    have next := last a p' t eq
    unfold Simulates at *
    simp only [Bind.bind, first, eq, next, Transcript.observations_append, List.append_assoc]

theorem progress {f : Progress (σ × List Observation) → Activity (σ × List Observation) β}
    {g : Progress σ → Activity σ β} (h : Simulates p notes (f (p.observed notes)) (g p)) :
    Simulates p notes (Activity.progress >>= f) (Activity.progress >>= g) := by
  unfold Simulates at *
  simp only [Bind.bind, Activity.progress, List.nil_append]
  exact h

theorem record {o : Occurrence} (quiet : o.observation? = none) :
    Simulates p notes (Activity.record o) (Activity.record o) := by
  unfold Simulates Activity.record Transcript.observations
  simp [quiet]

theorem ofExcept {result : Except Failure α} :
    Simulates p notes (Activity.ofExcept result) (Activity.ofExcept result) := by
  cases result with
  | ok a => exact of_quiet rfl rfl
  | error failure => exact of_quiet rfl rfl

theorem call {ctx : Context} {call : Call} {callback : Callback σ Unit} {known : List Observation}
    (learns : (Occurrence.called call).observation?.toList = known) :
    Simulates p notes (Activity.call ctx call (callback.observed known))
      (Activity.call ctx call callback) := by
  have run : ((callback.observed known).run.run (p.state, notes)) =
      ((callback.run.run p.state).observed (notes ++ known)).bind
        fun r => .done (r.1.1, (r.1.2, r.2)) := rfl
  unfold Simulates Activity.call Progress.observed
  simp only [run, Context.perform_map, Context.perform_observed, Transcript.observations_cons,
    learns, List.append_assoc]

end Simulates

end Activity

namespace Supervisor

open Activity

variable {σ α : Type} {s : Supervisor σ} {p : Progress σ} {notes : List Observation}

@[simp]
theorem protocol_observed : s.observed.protocol = s.protocol := rfl

@[simp]
theorem names_observed : s.observed.names = s.names := rfl

theorem simulates_log {level : LogLevel} {text : String} :
    Simulates p notes (s.observed.log level text) (s.log level text) :=
  Simulates.record rfl

theorem simulates_stop {fault : Fault} :
    Simulates p notes (s.observed.stop fault : Activity _ α) (s.stop fault) := by
  unfold stop
  apply simulates_log.bind
  intro _ p' t _
  exact Simulates.of_quiet rfl rfl

theorem simulates_call {call : Call} {callback : Callback σ Unit} {known : List Observation}
    (learns : (Occurrence.called call).observation?.toList = known) :
    Simulates p notes (s.observed.call call (callback.observed known)) (s.call call callback) := by
  unfold Supervisor.call
  apply (Simulates.call learns).bind
  intro result p' t _
  exact Simulates.ofExcept

theorem simulates_setConfig {key : String} {value : Json} :
    Simulates p notes (s.observed.setConfig key value) (s.setConfig key value) := by
  unfold setConfig
  apply Simulates.progress
  have same : s.observed.node.setConfig key value (p.observed notes).state =
      ((s.node.setConfig key value p.state).1, (s.node.setConfig key value p.state).2, notes) := rfl
  rw [same]
  generalize s.node.setConfig key value p.state = changed
  obtain ⟨result, state⟩ := changed
  apply (Simulates.record rfl).bind
  intro _ p' t recorded
  cases recorded
  -- the notes are still those that the configuration was changed with
  have unchanged : notes ++ Transcript.observations [.called (.setConfig key value)] = notes :=
    List.append_nil notes
  rw [unchanged]
  apply Simulates.bind (Simulates.of_quiet rfl rfl)
  intro _ p' t _
  match result with
  | .ok () => exact simulates_call rfl
  | .error fault =>
    apply simulates_log.bind
    intro _ p' t _
    exact simulates_call rfl

theorem simulates_deliver {m : Message} :
    Simulates p notes (s.observed.deliver m) (s.deliver m) := by
  unfold deliver
  rw [protocol_observed, names_observed]
  simp only
  split
  . exact simulates_stop
  . apply Simulates.progress
    apply Simulates.bind (Simulates.of_quiet rfl rfl)
    intro _ p' t _
    rw [Progress.session_observed]
    by_cases illegal :
      (p.session.push (.input (s.names.localName m.topic))).verdict = .unexpected
    . rw [if_pos illegal, if_pos illegal]
      exact simulates_stop
    . rw [if_neg illegal, if_neg illegal]
      apply simulates_log.bind
      intro _ p' t _
      apply (Simulates.call rfl).bind
      intro result p' t _
      split
      . exact Simulates.of_quiet rfl rfl
      . apply simulates_log.bind
        intro _ p' t _
        exact Simulates.of_quiet rfl rfl

theorem simulates_stopReading {fault : Fault} :
    Simulates p notes (s.observed.stopReading fault : Activity _ α) (s.stopReading fault) := by
  unfold stopReading
  apply Simulates.progress
  apply simulates_log.bind
  intro _ p' t _
  exact Simulates.of_quiet rfl rfl

theorem simulates_handle {m : Message} : Simulates p notes (s.observed.handle m) (s.handle m) := by
  unfold handle
  split
  . exact Simulates.of_quiet rfl rfl
  . exact simulates_setConfig
  . exact simulates_log
  . exact simulates_deliver

theorem simulates_start : Simulates p notes s.observed.start s.start := by
  unfold start
  apply (simulates_call rfl).bind
  intro _ p' t _
  exact simulates_log

theorem simulates_feed {line : List UInt8} :
    Simulates p notes (s.observed.feed line) (s.feed line) := by
  unfold feed
  apply Simulates.progress
  apply Simulates.bind (Simulates.of_quiet rfl rfl)
  intro _ p' t _
  split
  . exact Simulates.of_quiet rfl rfl
  . exact simulates_handle
  . exact simulates_stopReading

theorem simulates_feedAll (lines : List (List UInt8)) :
    Simulates p notes (s.observed.feedAll lines) (s.feedAll lines) := by
  induction lines generalizing p notes with
  | nil => exact Simulates.of_quiet rfl rfl
  | cons line rest ih =>
    apply simulates_feed.bind
    intro _ p' t _
    exact ih

theorem simulates_close : Simulates p notes s.observed.close s.close := by
  unfold close
  apply simulates_log.bind
  intro _ p' t _
  apply Simulates.progress
  simp only [Progress.session_observed]
  have ended : ∀ {p : Progress σ} {notes : List Observation}, Simulates p notes
      (do s.observed.call .finish s.observed.node.finish; pure p'.session.verdict)
      (do s.call .finish s.node.finish; pure p'.session.verdict) := by
    intro p notes
    apply (simulates_call rfl).bind
    intro _ _ _ _
    exact Simulates.of_quiet rfl rfl
  split
  . exact simulates_log.bind fun _ _ _ _ => ended
  . exact simulates_log.bind fun _ _ _ _ => ended
  . exact ended

theorem simulates_endReading (failure : Option Unreadable) :
    Simulates p notes (s.observed.endReading failure) (s.endReading failure) := by
  cases failure with
  | none => exact simulates_close
  | some cause => exact simulates_stopReading

theorem simulates_session (lines : List (List UInt8)) (failure : Option Unreadable) :
    Simulates p notes (s.observed.session lines failure) (s.session lines failure) := by
  unfold session
  apply simulates_start.bind
  intro _ p' t _
  apply (simulates_feedAll lines).bind
  intro _ p' t _
  exact simulates_endReading failure

theorem runOn_observed (s : Supervisor σ) (state : σ) (lines : List (List UInt8))
    (failure : Option Unreadable) :
    s.observed.runOn (state, []) lines failure =
      ((s.runOn state lines failure).1,
        ((s.runOn state lines failure).2.1, (s.runOn state lines failure).2.2.observations),
        (s.runOn state lines failure).2.2) := by
  have same := @simulates_session σ s (s.initial state) [] lines failure
  unfold Simulates at same
  unfold runOn
  have start : s.observed.initial (state, []) = (s.initial state).observed [] := rfl
  rw [start, same]
  rfl

end Supervisor

end Interaction
