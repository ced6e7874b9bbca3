import Interaction.Node.Reference
import Interaction.Proofs.Supervisor.Responsive
import Interaction.Proofs.Supervisor.Safety

/-!
This module contains the proof that the reference nodes keep to their protocols, and what they
answer.
-/

namespace Interaction

structure Protocol.Exchange (protocol : Protocol) (channel answer : String) : Prop where
  known : ∃ type, protocol.resolve (.output answer) = .ok type
  legal : (protocol.newSession.push (.input channel)).verdict ≠ .unexpected
  back : (protocol.newSession.push (.input channel)).push (.output answer) = protocol.newSession

theorem Protocol.exchange_of_active {protocol : Protocol} {channel answer : String}
    (declared : answer ∈ protocol.channels.outputs.keys)
    (waits : (protocol.newSession.push (.input channel)).verdict = .needMore)
    (active : ((protocol.newSession.push (.input channel)).push (.output answer)).active =
      protocol.newSession.active) : protocol.Exchange channel answer where
  known := by
    obtain ⟨type, found⟩ := Table.mem_keys_iff.1 declared
    exact ⟨type, resolve_eq_ok_iff.2 found⟩
  legal := by simp [waits]
  back := congrArg (Session.mk protocol.automaton) active

theorem Protocol.eq_or_eq_of_input {protocol : Protocol} {channel first second : String}
    (declared : channel ∈ protocol.channels.inputs.keys)
    (keys : protocol.channels.inputs.keys = [first, second]) :
    channel = first ∨ channel = second := by
  simpa [keys] using declared

theorem keys_imageFilter :
    Builtin.imageFilter.channels.inputs.keys = ["episode_start", "image"] := rfl

theorem keys_imageSource :
    Builtin.imageSource.channels.inputs.keys = ["next_episode", "next_image"] := rfl

theorem keys_agentJpgPwm :
    Builtin.agentJpgPwm.channels.inputs.keys = ["camera_image", "episode_start"] := rfl

theorem exchange_imageFilter {channel : String}
    (declared : channel ∈ Builtin.imageFilter.channels.inputs.keys) :
    Builtin.imageFilter.Exchange channel channel := by
  rcases Protocol.eq_or_eq_of_input declared keys_imageFilter with rfl | rfl
  all_goals exact Protocol.exchange_of_active (by decide) (by cbv) (by cbv)

def ImageSource.answers : List (String × String) := [
  ("next_episode", "episode_start"), ("next_episode", "no_more_episodes"),
  ("next_image", "image"), ("next_image", "no_more_images")]

theorem exchange_imageSource {channel : String} (answer : String)
    (mem : (channel, answer) ∈ ImageSource.answers) :
    Builtin.imageSource.Exchange channel answer := by
  simp only [ImageSource.answers, List.mem_cons, Prod.mk.injEq, List.not_mem_nil, or_false] at mem
  rcases mem with ⟨rfl, rfl⟩ | ⟨rfl, rfl⟩ | ⟨rfl, rfl⟩ | ⟨rfl, rfl⟩
  all_goals exact Protocol.exchange_of_active (by decide) (by cbv) (by cbv)

theorem legal_imageSource {channel : String}
    (declared : channel ∈ Builtin.imageSource.channels.inputs.keys) :
    (Builtin.imageSource.newSession.push (.input channel)).verdict ≠ .unexpected := by
  rcases Protocol.eq_or_eq_of_input declared keys_imageSource with rfl | rfl
  . exact (exchange_imageSource "episode_start" (by decide)).legal
  . exact (exchange_imageSource "image" (by decide)).legal

theorem exchange_cameraImage : Builtin.agentJpgPwm.Exchange "camera_image" "pwm_commands" :=
  Protocol.exchange_of_active (by decide) (by cbv) (by cbv)

theorem push_episodeStart :
    Builtin.agentJpgPwm.newSession.push (.input "episode_start") =
      Builtin.agentJpgPwm.newSession := by
  have active : (Builtin.agentJpgPwm.newSession.push (.input "episode_start")).active =
      Builtin.agentJpgPwm.newSession.active := by cbv
  exact congrArg (Session.mk _) active

namespace Context

variable {σ : Type} {ctx : Context} {channel answer : String} {data : Json} {session : Session}

theorem sends_pure : ctx.Sends (pure () : Callback σ Unit) session session (· = []) :=
  fun state => ⟨state, [], rfl, rfl⟩

theorem sends_log (text : String) :
    ctx.Sends (Callback.log text : Callback σ Unit) session session (· = []) :=
  fun state => ⟨state, _, rfl, rfl⟩

theorem perform_answer (exchange : ctx.protocol.Exchange channel answer) (state : σ) :
    ctx.perform ((Callback.write answer data).run.run state)
        (ctx.protocol.newSession.push (.input channel)) =
      ((.ok (), state), ctx.protocol.newSession,
        [.sent answer (.new (ctx.names.topic answer) data)]) := by
  obtain ⟨type, known⟩ := exchange.known
  have legal : ctx.protocol.newSession.verdict ≠ .unexpected := ctx.protocol.allows_nil
  rw [← exchange.back] at legal
  have written : ctx.write answer data _ = _ := write_of_legal known legal
  rw [exchange.back] at written
  exact perform_write written rfl

end Context

namespace ImageSource

variable (s : State)

theorem run_startEpisode : startEpisode.run.run s =
    if s.config.numEpisodes.toNat ≤ s.nextEpisode then
      (Callback.write "no_more_episodes" .null).run.run s
    else
      (Callback.write "episode_start" (State.episodeData s.nextEpisode)).run.run
        { s with episode := some s.nextEpisode, images := 0 } := by
  have first : startEpisode.run.run s =
      (if s.config.numEpisodes.toNat ≤ s.nextEpisode then
        Callback.write "no_more_episodes" .null
      else do
        set { s with episode := some s.nextEpisode, images := 0 }
        Callback.write "episode_start" (State.episodeData s.nextEpisode) :
          Callback State Unit).run.run s := rfl
  rw [first]
  split
  . rfl
  . rfl

theorem run_nextImage : nextImage.run.run s =
    if s.config.imagesPerEpisode.toNat ≤ s.images then
      (Callback.write "no_more_images" .null).run.run s
    else
      (Callback.write "image" (State.imageData { s with images := s.images + 1 })).run.run
        { s with images := s.images + 1 } := by
  have first : nextImage.run.run s =
      (if s.config.imagesPerEpisode.toNat ≤ s.images then
        Callback.write "no_more_images" .null
      else do
        set { s with images := s.images + 1 }
        Callback.write "image" (State.imageData { s with images := s.images + 1 }) :
          Callback State Unit).run.run s := rfl
  rw [first]
  split
  . rfl
  . rfl

inductive Reply : Message → Message → Prop where
  | episode (m : Message) (topic : m.topic = "next_episode") (number : Nat) :
    Reply m (.new "episode_start" (State.episodeData number))
  | noMoreEpisodes (m : Message) (topic : m.topic = "next_episode") :
    Reply m (.new "no_more_episodes" .null)
  | image (m : Message) (topic : m.topic = "next_image") (state : State) :
    Reply m (.new "image" state.imageData)
  | noMoreImages (m : Message) (topic : m.topic = "next_image") :
    Reply m (.new "no_more_images" .null)

end ImageSource

def RandomAgent.IsCommand (m : Message) : Prop :=
  ∃ left right : Binary64, m =
    .new "pwm_commands"
      (.object [("motor_left", .ofBinary left), ("motor_right", .ofBinary right)])

namespace Supervisor

theorem responsive_imageFilter {s : Supervisor Unit} (node : s.node = Node.imageFilter)
    (protocol : s.protocol = Builtin.imageFilter) (names : s.names = .identity) :
    s.Responsive (fun _ => true) fun m r => r = .new m.topic m.data := by
  obtain ⟨_, _, _, handled⟩ := s
  dsimp only at node protocol names
  subst node protocol names
  have enough : Builtin.imageFilter.newSession.verdict = .enough := by cbv
  have plain : ∀ channel ∈ Builtin.imageFilter.channels.inputs.keys,
      Control.commandOf? channel = none := by decide
  exact {
    names_eq := rfl
    enough
    plain
    init := Context.sends_log _
    configured := fun _ _ => Context.sends_pure
    finish := Context.sends_log _
    legal := fun channel declared => (exchange_imageFilter declared).legal
    receive := by
      intro m declared state
      exact ⟨_, _, Context.perform_answer (exchange_imageFilter declared) state,
        .cons rfl .nil⟩ }

theorem responsive_imageSource {s : Supervisor ImageSource.State}
    (node : s.node = Node.imageSource) (protocol : s.protocol = Builtin.imageSource)
    (names : s.names = .identity) : s.Responsive (fun _ => true) ImageSource.Reply := by
  obtain ⟨_, _, _, handled⟩ := s
  dsimp only at node protocol names
  subst node protocol names
  have enough : Builtin.imageSource.newSession.verdict = .enough := by cbv
  have plain : ∀ channel ∈ Builtin.imageSource.channels.inputs.keys,
      Control.commandOf? channel = none := by decide
  exact {
    names_eq := rfl
    enough
    plain
    init := fun state => ⟨_, [], rfl, rfl⟩
    configured := fun _ _ => Context.sends_log _
    finish := Context.sends_pure
    legal := fun channel declared => legal_imageSource declared
    receive := by
      rintro ⟨topic, data, timing⟩ declared state
      rcases Protocol.eq_or_eq_of_input declared keys_imageSource with rfl | rfl
      . dsimp only
        change ∃ state' t, Context.perform _ (ImageSource.startEpisode.run.run state) _ = _ ∧ _
        rw [ImageSource.run_startEpisode]
        split
        . exact ⟨_, _, Context.perform_answer (exchange_imageSource _ (by decide)) _,
            .cons (.noMoreEpisodes _ rfl) .nil⟩
        . exact ⟨_, _, Context.perform_answer (exchange_imageSource _ (by decide)) _,
            .cons (.episode _ rfl _) .nil⟩
      . dsimp only
        change ∃ state' t, Context.perform _ (ImageSource.nextImage.run.run state) _ = _ ∧ _
        rw [ImageSource.run_nextImage]
        split
        . exact ⟨_, _, Context.perform_answer (exchange_imageSource _ (by decide)) _,
            .cons (.noMoreImages _ rfl) .nil⟩
        . exact ⟨_, _, Context.perform_answer (exchange_imageSource _ (by decide)) _,
            .cons (.image _ rfl _) .nil⟩ }

theorem responsive_randomAgent {γ : Type} {generator : Generator γ} {s : Supervisor γ}
    (node : s.node = Node.randomAgent generator) (protocol : s.protocol = Builtin.agentJpgPwm)
    (names : s.names = .identity) :
    s.Responsive (·.topic = "camera_image") fun _ => RandomAgent.IsCommand := by
  obtain ⟨_, _, _, handled⟩ := s
  dsimp only at node protocol names
  subst node protocol names
  have enough : Builtin.agentJpgPwm.newSession.verdict = .enough := by cbv
  have plain : ∀ channel ∈ Builtin.agentJpgPwm.channels.inputs.keys,
      Control.commandOf? channel = none := by decide
  exact {
    names_eq := rfl
    enough
    plain
    init := Context.sends_log _
    configured := fun _ _ => Context.sends_pure
    finish := Context.sends_log _
    legal := by
      intro channel declared
      rcases Protocol.eq_or_eq_of_input declared keys_agentJpgPwm with rfl | rfl
      . exact exchange_cameraImage.legal
      . simp [push_episodeStart, enough]
    receive := by
      rintro ⟨topic, data, timing⟩ declared state
      rcases Protocol.eq_or_eq_of_input declared keys_agentJpgPwm with rfl | rfl
      . exact ⟨_, _, Context.perform_answer exchange_cameraImage _, .cons ⟨_, _, rfl⟩ .nil⟩
      . dsimp only
        rw [push_episodeStart]
        exact ⟨_, _, rfl, .nil⟩ }

/--
Whether a node can be bound to a protocol of the catalog, and then completes every run on ordinary
lines, with one line of output for each message that asks for a reply.
-/
def Completes {σ : Type} (node : Node σ) (name : String) (asks : Message → Bool)
    (Reply : Message → Message → Prop) : Prop :=
  ∃ p s, Catalog.builtin.get name = .ok p ∧ Supervisor.bind node p .identity = .ok s ∧
    ∀ state input, (∀ line ∈ Lines.cut input, Ordinary p line) →
      ∃ final t, s.run state input = (.ok .enough, final, t) ∧
        List.Forall₂ Reply ((Lines.channelMessages input).filter asks) t.messages ∧
        t.output.toList.count '\n' = ((Lines.channelMessages input).filter asks).length

theorem completes_of_responsive {σ : Type} {node : Node σ} {name : String} {p : Protocol}
    {asks : Message → Bool} {Reply : Message → Message → Prop}
    (get : Catalog.builtin.get name = .ok p)
    (handled : ∀ channel ∈ p.channels.inputs.keys, channel ∈ node.handlers)
    (responsive : ∀ s : Supervisor σ, s.node = node → s.protocol = p → s.names = .identity →
      s.Responsive asks Reply) : Completes node name asks Reply := by
  obtain ⟨s, bound⟩ : ∃ s, Supervisor.bind node p .identity = .ok s := exists_bind .identity handled
  obtain ⟨rfl, rfl, names⟩ := bind_eq_ok bound
  refine ⟨_, s, get, bound, ?_⟩
  intro state input ordinary
  obtain ⟨final, t, run, replies⟩ := (responsive s rfl rfl names).run_eq_enough state ordinary
  refine ⟨final, t, run, replies, ?_⟩
  rw [Transcript.count_output, replies.length_eq]

section Sample

def blankLine : List UInt8 := "\n".toUTF8.toList

def configLine : List UInt8 :=
  ("\x7b\"topic\":\"wrapper.set_config\"," ++
    "\"data\":\x7b\"key\":\"\",\"value\":1\x7d\x7d\n").toUTF8.toList

def unknownLine : List UInt8 := "\x7b\"topic\":\"wrapper.\"\x7d\n".toUTF8.toList

def nextImageLine : List UInt8 := "\x7b\"topic\":\"next_image\"\x7d\n".toUTF8.toList

def episodeLine : List UInt8 := "\x7b\"topic\":\"episode_start\"\x7d\n".toUTF8.toList

def sample : List UInt8 := blankLine ++ configLine ++ unknownLine ++ nextImageLine

set_option maxRecDepth 2000 in
theorem parse_configLine : Lines.parse configLine =
    some (.ok (.new "wrapper.set_config"
      (.object [("key", .string ""), ("value", .ofNat 1)]))) := by
  cbv

theorem parse_unknownLine : Lines.parse unknownLine = some (.ok (.new "wrapper." .null)) := by
  cbv

theorem parse_nextImageLine : Lines.parse nextImageLine = some (.ok (.new "next_image" .null)) := by
  cbv

theorem parse_episodeLine :
    Lines.parse episodeLine = some (.ok (.new "episode_start" .null)) := by
  cbv

theorem cut_sample : Lines.cut sample = [blankLine, configLine, unknownLine, nextImageLine] := by
  decide +kernel

theorem cut_episodeLine : Lines.cut episodeLine = [episodeLine] := by
  decide +kernel

theorem ordinary_sample :
    ∀ line ∈ Lines.cut sample, Ordinary Builtin.imageSource line := by
  rw [cut_sample]
  simp only [List.forall_mem_cons]
  refine ⟨?_, ?_, ?_, ?_, by simp⟩
  . exact .blank "\n" (by decide +kernel) (by simp [Text.isBlank])
  . exact .setConfig _ parse_configLine rfl _ rfl _ _ rfl rfl
  . exact .unknown _ parse_unknownLine "" rfl (by decide)
  . exact .input _ parse_nextImageLine (by decide)

theorem ordinary_episodeLine {p : Protocol} (declared : "episode_start" ∈ p.channels.inputs.keys) :
    ∀ line ∈ Lines.cut episodeLine, Ordinary p line := by
  rw [cut_episodeLine]
  intro line mem
  rw [List.mem_singleton] at mem
  subst mem
  exact .input _ parse_episodeLine declared

theorem channelMessages_episodeLine :
    Lines.channelMessages episodeLine = [.new "episode_start" .null] := by
  have classified := Incoming.classify_of_plain (m := .new "episode_start" .null) rfl
  unfold Lines.channelMessages
  rw [cut_episodeLine]
  simp [Lines.channelMessage?_of_channel parse_episodeLine classified]

end Sample

end Supervisor

end Interaction
