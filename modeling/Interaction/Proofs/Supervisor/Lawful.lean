import Interaction.Proofs.Session.Verdict
import Interaction.Supervisor.Basic

/-!
This module contains the transcripts that a protocol permits. What happens may depend on the events
that were pushed to the session before, the refused ones included.
-/

namespace Interaction

namespace Protocol

variable {protocol : Protocol} {v w : List Event}

def Allows (protocol : Protocol) (w : List Event) : Prop :=
  (protocol.newSession.follow w).verdict ≠ .unexpected

theorem follow_newSession :
    protocol.newSession.follow w = Session.after protocol.language w := by
  unfold newSession Session.after
  rw [protocol.automaton_eq]

theorem allows_nil : protocol.Allows [] := by
  unfold Allows
  rw [follow_newSession]
  exact Session.verdict_after_nil_ne_unexpected

theorem Allows.mono (h : protocol.Allows w) (le : v <+: w) : protocol.Allows v := by
  unfold Allows at *
  rw [follow_newSession] at *
  exact Session.verdict_after_ne_unexpected_mono le h

theorem Allows.of_append (h : protocol.Allows (v ++ w)) : protocol.Allows v :=
  h.mono (List.prefix_append v w)

end Protocol

def Occurrence.event? : Occurrence → Option Event
  | .called (.receive channel _) => some (.input channel)
  | .sent channel _ => some (.output channel)
  | _ => none

def Occurrence.pushed? : Occurrence → Option Event
  | .refused _ (.violation e _) => some e
  | o => o.event?

theorem Occurrence.pushed?_eq_event? {o : Occurrence}
    (h : ∀ channel e expected, o ≠ .refused channel (.violation e expected)) :
    o.pushed? = o.event? := by
  unfold pushed?
  split
  . next channel e expected => exact absurd rfl (h channel e expected)
  . rfl

namespace Transcript

variable {t : Transcript} {o : Occurrence}

def pushed (t : Transcript) : List Event := t.filterMap Occurrence.pushed?

/-- What happened before the node was called for the last time. -/
def beforeFinish (t : Transcript) : Transcript :=
  t.takeWhile fun
    | .called .finish => false
    | _ => true

theorem events_eq : t.events = t.filterMap Occurrence.event? := by
  unfold events
  apply List.filterMap_congr
  intro o _
  cases o with
  | called call => cases call <;> rfl
  | _ => rfl

theorem pushed_append (t u : Transcript) : (t ++ u).pushed = t.pushed ++ u.pushed :=
  List.filterMap_append

theorem events_append (t u : Transcript) : (t ++ u).events = t.events ++ u.events :=
  List.filterMap_append

theorem pushed_snoc : (t ++ [o]).pushed = t.pushed ++ o.pushed?.toList := by
  rw [pushed_append]
  unfold pushed
  cases eq : o.pushed? <;> simp [eq]

theorem events_snoc : (t ++ [o]).events = t.events ++ o.event?.toList := by
  rw [events_append, events_eq (t := [o])]
  cases eq : o.event? <;> simp [eq]

end Transcript

/--
Whether something may happen after a transcript: messages go over declared channels only, as legal
events, and what goes out bears the topic of its channel; what is refused as an event is illegal.
-/
def Permits (protocol : Protocol) (names : Renaming) (t : Transcript) : Occurrence → Prop
  | .called (.receive channel _) =>
    channel ∈ protocol.channels.inputs.keys ∧ protocol.Allows (t.pushed ++ [.input channel])
  | .sent channel message =>
    channel ∈ protocol.channels.outputs.keys ∧
      message = .new (names.topic channel) message.data ∧
      protocol.Allows (t.pushed ++ [.output channel])
  | .refused _ (.violation e _) => ¬protocol.Allows (t.pushed ++ [e])
  | _ => True

theorem Permits.allows {protocol : Protocol} {names : Renaming} {t : Transcript} {o : Occurrence}
    {e : Event} (h : Permits protocol names t o) (eq : o.event? = some e) :
    protocol.Allows (t.pushed ++ [e]) := by
  cases o with
  | called call =>
    cases call with
    | receive channel data =>
      cases eq
      exact h.2
    | _ => cases eq
  | sent channel message =>
    cases eq
    exact h.2.2
  | _ => cases eq

inductive Lawful (protocol : Protocol) (names : Renaming) : Transcript → Prop where
  | nil : Lawful protocol names []
  | snoc {t : Transcript} {o : Occurrence} :
    Lawful protocol names t → Permits protocol names t o → Lawful protocol names (t ++ [o])

namespace Lawful

variable {protocol : Protocol} {names : Renaming} {t : Transcript} {o : Occurrence}

theorem pushed_eq_events (h : Lawful protocol names t) (allows : protocol.Allows t.pushed) :
    t.pushed = t.events := by
  induction h with
  | nil => rfl
  | @snoc t o _ permits ih =>
    rw [Transcript.pushed_snoc] at allows
    rw [Transcript.pushed_snoc, Transcript.events_snoc, ih allows.of_append]
    by_cases violation : ∃ channel e expected, o = .refused channel (.violation e expected)
    -- a refused event is illegal, so that it is not among the legal ones
    . obtain ⟨channel, e, expected, rfl⟩ := violation
      exact absurd allows permits
    . simp only [not_exists] at violation
      rw [Occurrence.pushed?_eq_event? violation]

theorem allows_events (h : Lawful protocol names t) : protocol.Allows t.events := by
  induction h with
  | nil => exact Protocol.allows_nil
  | @snoc t o before permits ih =>
    rw [Transcript.events_snoc]
    cases eq : o.event? with
    | none =>
      rw [Option.toList_none, List.append_nil]
      exact ih
    | some e =>
      -- what is legal after the refused events as well shows that there were none
      have allows := permits.allows eq
      rw [before.pushed_eq_events allows.of_append] at allows
      exact allows

theorem of_mem_receive {channel : String} {data : Json} (h : Lawful protocol names t)
    (mem : .called (.receive channel data) ∈ t) : channel ∈ protocol.channels.inputs.keys := by
  induction h with
  | nil => simp at mem
  | snoc _ permits ih =>
    rcases List.mem_append.1 mem with mem | mem
    . exact ih mem
    . rw [← List.mem_singleton.1 mem] at permits
      exact permits.1

theorem of_mem_sent {channel : String} {message : Message} (h : Lawful protocol names t)
    (mem : .sent channel message ∈ t) :
    channel ∈ protocol.channels.outputs.keys ∧
      message = .new (names.topic channel) message.data := by
  induction h with
  | nil => simp at mem
  | snoc _ permits ih =>
    rcases List.mem_append.1 mem with mem | mem
    . exact ih mem
    . rw [← List.mem_singleton.1 mem] at permits
      exact ⟨permits.1, permits.2.1⟩

end Lawful

end Interaction
