import Interaction.Proofs.Node.Orderly
import Interaction.Proofs.Node.Reference
import Interaction.Proofs.Supervisor.Refusal

/-!
This module contains the proof that every run of the image source is in order: each request is
answered at once, whatever the lines of the stream are and however the limits are changed.
-/

namespace Interaction

namespace ImageSource

def supervisor (names : Renaming) : Supervisor State where
  node := Node.imageSource
  protocol := Builtin.imageSource
  names := names
  handled := by decide

theorem eq_supervisor {s : Supervisor State} (node : s.node = Node.imageSource)
    (protocol : s.protocol = Builtin.imageSource) : s = supervisor s.names := by
  obtain ⟨_, _, names, handled⟩ := s
  dsimp only at node protocol
  subst node protocol
  rfl

/-- Whether a run of the image source is in order, between two of its lines. -/
structure Settled (names : Renaming) (config : Config) (t : Transcript) (p : Progress State) :
    Prop where
  orderly : Orderly names config t
  rest : p.session = Builtin.imageSource.newSession
  state : p.state = (Tally.of config t).state

namespace Settled

variable {names : Renaming} {config : Config} {t u : Transcript} {p : Progress State}

theorem aside {o : Occurrence} (h : Settled names config t p) (aside : o.isAside = true) :
    Settled names config (t ++ [o]) p where
  orderly := h.orderly.aside aside
  rest := h.rest
  state := by rw [Tally.of_snoc, Tally.after_of_isAside aside, h.state]

theorem asides (h : Settled names config t p) (asides : ∀ o ∈ u, o.isAside = true) :
    Settled names config (t ++ u) p := by
  induction u generalizing t with
  | nil =>
    rw [List.append_nil]
    exact h
  | cons o u ih =>
    rw [List.forall_mem_cons] at asides
    rw [List.append_cons]
    exact ih (h.aside asides.1) asides.2

theorem setConfig (h : Settled names config t p) (key : String) (value : Json) :
    Settled names config (t ++ [.called (.setConfig key value)])
      { p with state := (Node.imageSource.setConfig key value p.state).2 } where
  orderly := h.orderly.setConfig key value
  rest := h.rest
  state := by
    rw [Tally.of_snoc, Tally.state_after_setConfig, h.state]

theorem answer {asked answer : String} {data : Json} (h : Settled names config t p) (request : Json)
    (answered : Answer (.of config t) asked answer data) :
    Settled names config
      (t ++ [.called (.receive asked request), .sent answer (.new (names.topic answer) data)])
      { p with
        state := ((Tally.of config t).after (.sent answer (.new (names.topic answer) data))).state,
        session := Builtin.imageSource.newSession } where
  orderly := by
    have orderly := h.orderly.answer request answered
    rw [List.append_assoc] at orderly
    exact orderly
  rest := rfl
  state := by
    rw [Tally.of_append]
    rfl

end Settled

def Keeps {α : Type} (names : Renaming) (m : Activity State α) : Prop :=
  ∀ config t p, Settled names config t p → Settled names config (t ++ (m p).2.2) (m p).2.1

namespace Keeps

open Activity

variable {α β : Type} {names : Renaming} {m : Activity State α} {f : α → Activity State β}

theorem of_quiet (h : ∀ p, (m p).2.2 = [] ∧ (m p).2.1.state = p.state ∧
    (m p).2.1.session = p.session) : Keeps names m := by
  intro config t p settled
  obtain ⟨none, state, session⟩ := h p
  rw [none, List.append_nil]
  exact ⟨settled.orderly, session.trans settled.rest, state.trans settled.state⟩

theorem pure (a : α) : Keeps names (Pure.pure a) :=
  of_quiet fun _ => ⟨rfl, rfl, rfl⟩

theorem fail (failure : Failure) : Keeps names (Activity.fail failure : Activity State α) :=
  of_quiet fun _ => ⟨rfl, rfl, rfl⟩

theorem progress : Keeps names Activity.progress :=
  of_quiet fun _ => ⟨rfl, rfl, rfl⟩

theorem setLine (line : Nat) : Keeps names (Activity.setLine line) :=
  of_quiet fun _ => ⟨rfl, rfl, rfl⟩

theorem log (level : LogLevel) (text : String) : Keeps names ((supervisor names).log level text) :=
  fun _ _ _ settled => settled.aside rfl

theorem bind (first : Keeps names m) (last : ∀ a, Keeps names (f a)) : Keeps names (m >>= f) := by
  intro config t p settled
  have here := first config t p settled
  match eq : m p with
  | (.error failure, p', u) =>
    rw [eq] at here
    rw [bind_of_error eq]
    exact here
  | (.ok a, p', u) =>
    rw [eq] at here
    have next := last a config (t ++ u) p' here
    rw [List.append_assoc] at next
    rw [bind_of_ok eq]
    exact next

theorem stop (fault : Fault) : Keeps names ((supervisor names).stop fault : Activity State α) := by
  unfold Supervisor.stop
  exact (log _ _).bind fun _ => fail _

theorem stopReading (fault : Fault) :
    Keeps names ((supervisor names).stopReading fault : Activity State α) := by
  unfold Supervisor.stopReading
  exact progress.bind fun _ => (log _ _).bind fun _ => fail _

theorem configured (key : String) (value : Json) :
    Keeps names ((supervisor names).call (.configured key value)
      (Node.imageSource.configured key value)) := by
  intro config t p settled
  have performed : (supervisor names).context.perform
      ((Node.imageSource.configured key value).run.run p.state) p.session =
        ((.ok (), p.state), p.session, [.logged ⟨_, _, _⟩]) := rfl
  rw [Supervisor.call_of_perform _ performed, List.append_cons]
  exact (settled.aside rfl).aside rfl

theorem setConfig (key : String) (value : Json) :
    Keeps names ((supervisor names).setConfig key value) := by
  intro config t p settled
  have changed := settled.setConfig key value
  have same : (supervisor names).node = Node.imageSource := rfl
  unfold Supervisor.setConfig
  rw [progress_bind, same]
  generalize Node.imageSource.setConfig key value p.state = attempt at changed ⊢
  obtain ⟨result, state⟩ := attempt
  cases result with
  | ok _ =>
    have told := configured key value config _ _ changed
    rw [List.append_assoc] at told
    exact told
  | error fault =>
    have logged := (@log names .error fault.message).bind fun _ => configured key value
    have told := logged config _ _ changed
    rw [List.append_assoc] at told
    exact told

end Keeps

theorem perform_receive (names : Renaming) (k : Tally) {asked : String} (request : Json)
    (declared : asked ∈ Builtin.imageSource.channels.inputs.keys) :
    ∃ answer data, Answer k asked answer data ∧
      (supervisor names).context.perform ((Node.imageSource.receive asked request).run.run k.state)
          (Builtin.imageSource.newSession.push (.input asked)) =
        ((.ok (), (k.after (.sent answer (.new (names.topic answer) data))).state),
          Builtin.imageSource.newSession, [.sent answer (.new (names.topic answer) data)]) := by
  rcases Protocol.eq_or_eq_of_input declared keys_imageSource with rfl | rfl
  . change ∃ answer data, _ ∧ Context.perform _ (startEpisode.run.run k.state) _ = _
    rw [run_startEpisode, Tally.nextEpisode_state]
    split
    . next none =>
      exact ⟨_, _, .noMoreEpisodes none,
        Context.perform_answer (exchange_imageSource _ (by decide)) _⟩
    . next more =>
      exact ⟨_, _, .episode (Nat.lt_of_not_le more),
        Context.perform_answer (exchange_imageSource _ (by decide)) _⟩
  . change ∃ answer data, _ ∧ Context.perform _ (nextImage.run.run k.state) _ = _
    rw [run_nextImage]
    split
    . next none =>
      exact ⟨_, _, .noMoreImages none,
        Context.perform_answer (exchange_imageSource _ (by decide)) _⟩
    . next more =>
      exact ⟨_, _, .image (Nat.lt_of_not_le more),
        Context.perform_answer (exchange_imageSource _ (by decide)) _⟩

namespace Keeps

open Activity

variable {names : Renaming}

theorem deliver (m : Message) : Keeps names ((supervisor names).deliver m) := by
  match known : (supervisor names).protocol.resolve ((supervisor names).eventOf m) with
  | .error fault =>
    unfold Supervisor.eventOf at known
    unfold Supervisor.deliver
    simp only [known]
    exact stop fault
  | .ok type =>
    intro config t p settled
    have declared : names.localName m.topic ∈ Builtin.imageSource.channels.inputs.keys :=
      Protocol.mem_keys_of_resolve known
    obtain ⟨answer, data, answered, performed⟩ :=
      perform_receive names (.of config t) m.data declared
    have legal := legal_imageSource declared
    rw [← settled.rest] at legal performed
    rw [← settled.state] at performed
    obtain ⟨entry, delivered⟩ := Supervisor.deliver_of_perform known legal performed
    have same : Tally.of config (t ++ [.logged entry]) = .of config t := Tally.of_snoc _ _ _
    rw [← same] at answered
    have ordered := (settled.aside (o := .logged entry) rfl).answer m.data answered
    rw [same, List.append_assoc, ← settled.rest] at ordered
    rw [delivered]
    exact ordered

theorem handle (m : Message) : Keeps names ((supervisor names).handle m) := by
  unfold Supervisor.handle
  split
  . exact fail _
  . exact setConfig _ _
  . exact log _ _
  . exact deliver _

theorem feed (line : List UInt8) : Keeps names ((supervisor names).feed line) := by
  unfold Supervisor.feed
  apply progress.bind
  intro p
  apply (setLine _).bind
  intro _
  split
  . exact pure ()
  . exact handle _
  . exact stopReading _

theorem feedAll (lines : List (List UInt8)) : Keeps names ((supervisor names).feedAll lines) := by
  induction lines with
  | nil => exact pure ()
  | cons line rest ih => exact (feed line).bind fun _ => ih

theorem close : Keeps names (supervisor names).close := by
  intro config t p settled
  have performed : (supervisor names).context.perform
      ((supervisor names).node.finish.run.run p.state) p.session =
        ((.ok (), p.state), p.session, []) := rfl
  obtain ⟨entries, closed⟩ := Supervisor.close_of_perform performed
  rw [closed]
  apply settled.asides
  intro o mem
  rcases List.mem_append.1 mem with mem | mem
  . obtain ⟨entry, _, rfl⟩ := List.mem_map.1 mem
    rfl
  . rw [List.mem_singleton.1 mem]
    rfl

end Keeps

theorem settled_start (names : Renaming) (state : State) :
    ∃ p t, (supervisor names).start ((supervisor names).initial state) = (.ok (), p, t) ∧
      Settled names state.config t p := by
  have performed : (supervisor names).context.perform
      ((supervisor names).node.init.run.run state) Builtin.imageSource.newSession =
        ((.ok (), State.new state.config), Builtin.imageSource.newSession, []) := rfl
  obtain ⟨entry, started⟩ := Supervisor.start_of_perform (s := supervisor names)
    (p := (supervisor names).initial state) performed
  refine ⟨_, _, started, ?_⟩
  have begun : Settled names state.config []
      ⟨State.new state.config, Builtin.imageSource.newSession, 0⟩ := ⟨.nil, rfl, rfl⟩
  exact (begun.aside (o := .called .init) rfl).aside (o := .logged entry) rfl

theorem settled_of_reaches {names : Renaming} {state : State} {lines : List (List UInt8)}
    {p : Progress State} {t : Transcript} (reaches : (supervisor names).Reaches state lines p t) :
    Settled names state.config t p := by
  obtain ⟨p', t', started, settled⟩ := settled_start names state
  have fed := Keeps.feedAll lines state.config t' p' settled
  unfold Supervisor.Reaches at reaches
  rw [Activity.bind_of_ok started] at reaches
  obtain ⟨_, rfl, rfl⟩ : _ ∧ _ ∧ _ := by simpa using reaches
  exact fed

theorem orderly_run (names : Renaming) (state : State) (input : List UInt8) :
    Orderly names state.config ((supervisor names).run state input).2.2 := by
  obtain ⟨p, t, started, settled⟩ := settled_start names state
  have ends := (@Keeps.feedAll names (Lines.cut input)).bind fun _ => Keeps.close
  have ended := ends state.config t p settled
  unfold Supervisor.run Supervisor.runOn Supervisor.session
  rw [Activity.bind_of_ok started]
  exact ended.orderly

/--
In every run of an image source, with whatever configuration and whatever changes to it, the
episodes are numbered from zero, and the images after the start of an episode, or of the run, from
one, with the index of that episode. Each request has exactly one answer, which goes out right after
it: a new episode or image, within the limits that are configured at the time, or the word that
there is no more. The counters of the node are those of its outputs; they fit into 32 bits, and so
they do whenever one of them is increased.
-/
theorem run_consecutive {s : Supervisor State} (node : s.node = Node.imageSource)
    (protocol : s.protocol = Builtin.imageSource) (state : State) (input : List UInt8) :
    ∃ result final t, s.run state input = (result, final, t) ∧
      t.sentOn "episode_start" =
        (List.range (t.sentOn "episode_start").length).map State.episodeData ∧
      (∀ before during after, t = before ++ (during ++ after) → Begins before →
        during.sentOn "episode_start" = [] →
          ∀ i data, (during.sentOn "image")[i]? = some data → ∃ shape, data =
            frameData (lastOf (before.sentOn "episode_start").length) (i + 1) shape) ∧
      (∀ before channel m after, t = before ++ .sent channel m :: after →
        ∃ earlier asked request, before = earlier ++ [.called (.receive asked request)] ∧
          m = .new (s.names.topic channel) m.data ∧
          Answer (.of state.config earlier) asked channel m.data) ∧
      (∀ before asked request after, t = before ++ .called (.receive asked request) :: after →
        ∃ channel m rest, after = .sent channel m :: rest) ∧
      ∀ lines p u, s.Reaches state lines p u →
        p.state = (Tally.of state.config u).state ∧
          p.state.nextEpisode < UInt32.size ∧ p.state.images < UInt32.size ∧
          (p.state.images < p.state.config.imagesPerEpisode.toNat →
            p.state.images + 1 < UInt32.size) := by
  rw [eq_supervisor node protocol]
  have orderly := orderly_run s.names state input
  refine ⟨_, _, _, rfl, orderly.sentOn_episode_start, ?_, ?_, ?_, ?_⟩
  . intro before during after place begins same i data found
    exact orderly.sentOn_image place begins same found
  . intro before channel m after place
    exact orderly.answer_of_sent place
  . intro before asked request after place
    exact orderly.sent_of_receive place
  . intro lines p u reaches
    have settled := settled_of_reaches reaches
    obtain ⟨episodes, images⟩ := settled.orderly.tally_lt
    refine ⟨settled.state, ?_, ?_, ?_⟩
    . rw [settled.state, Tally.nextEpisode_state]
      exact episodes
    . rw [settled.state]
      exact images
    . intro more
      exact Nat.lt_of_le_of_lt more (UInt32.toNat_lt _)

def nextEpisodeLine : List UInt8 := "\x7b\"topic\":\"next_episode\"\x7d\n".toUTF8.toList

def requests : List UInt8 :=
  Supervisor.nextImageLine ++ Supervisor.nextImageLine ++ nextEpisodeLine ++
    Supervisor.nextImageLine

set_option maxRecDepth 4000 in
theorem sentOn_image_requests :
    ((supervisor .identity).run (.new ⟨2, 3, 1, 1⟩) requests).2.2.sentOn "image" =
      [frameData none 1 (.array [.ofNat 2, .ofNat 3]),
        frameData (some 0) 1 (.array [.ofNat 2, .ofNat 3])] := by
  cbv

theorem run_consecutive_requests :
    ∃ result final t, (supervisor .identity).run (.new ⟨2, 3, 1, 1⟩) requests =
        (result, final, t) ∧
      t.sentOn "image" =
        [frameData none 1 (.array [.ofNat 2, .ofNat 3]),
          frameData (some 0) 1 (.array [.ofNat 2, .ofNat 3])] ∧
      t.sentOn "episode_start" =
        (List.range (t.sentOn "episode_start").length).map State.episodeData ∧
      ∀ before asked request after, t = before ++ .called (.receive asked request) :: after →
        ∃ channel m rest, after = .sent channel m :: rest := by
  obtain ⟨result, final, t, run, episodes, _, _, answered, _⟩ :=
    run_consecutive (s := supervisor .identity) rfl rfl (.new ⟨2, 3, 1, 1⟩) requests
  have images := sentOn_image_requests
  rw [run] at images
  exact ⟨result, final, t, run, images, episodes, answered⟩

end ImageSource

end Interaction
