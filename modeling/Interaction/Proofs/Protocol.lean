import Interaction.Proofs.Channels
import Interaction.Proofs.Session.Expected
import Interaction.Proofs.Supervisor.Lawful

/-!
This module contains how a protocol and its channels go together: a protocol is made exactly if all
leaves of its language are declared, the events on the edges of an automaton are the leaves of its
language, and therefore sessions of a protocol never expect or accept an undeclared event.
-/

namespace Interaction

namespace Language

def IfLeaf (p : Event → Prop) : Language → Prop
  | .event e => p e
  | _ => True

variable {p : Event → Prop}

mutual

theorem each_ifLeaf_iff (l : Language) : l.Each (IfLeaf p) ↔ ∀ e ∈ l.events, p e := by
  cases l with
  | event e => simp [Each, IfLeaf, events]
  | sequence parts => simpa [Each, IfLeaf, events] using eachOf_ifLeaf_iff parts
  | either branches => simpa [Each, IfLeaf, events] using eachOf_ifLeaf_iff branches
  | optional body => simpa [Each, IfLeaf, events] using each_ifLeaf_iff body
  | zeroOrMore body => simpa [Each, IfLeaf, events] using each_ifLeaf_iff body
  | oneOrMore body => simpa [Each, IfLeaf, events] using each_ifLeaf_iff body

theorem eachOf_ifLeaf_iff (ls : List Language) :
    EachOf (IfLeaf p) ls ↔ ∀ e ∈ eventsOfAll ls, p e := by
  cases ls with
  | nil => simp [EachOf, eventsOfAll]
  | cons l rest =>
    simp only [EachOf, eventsOfAll, List.forall_mem_append]
    exact and_congr (each_ifLeaf_iff l) (eachOf_ifLeaf_iff rest)

end

end Language

namespace Automaton

variable {e : Event}

def Fragment.Mentions (f : Fragment) (e : Event) : Prop := ∃ p q, ⟨p, some e, q⟩ ∈ f.edges

theorem Fragment.mentions_andThen {first : Fragment} {second : Nat → Fragment} :
    (first.andThen second).Mentions e ↔ first.Mentions e ∨ (second first.next).Mentions e := by
  unfold Mentions
  simp only [mem_andThen, exists_or]

theorem Fragment.mentions_edge {source target next : Nat} {label : Option Event} :
    (Fragment.edge source label target next).Mentions e ↔ label = some e := by
  unfold Mentions
  simp [eq_comm]

mutual

theorem place_mentions_iff (l : Language) (source target next : Nat) :
    (place l source target next).Mentions e ↔ e ∈ l.events := by
  cases l with
  | event e' => simp [place, Fragment.mentions_edge, Language.events, eq_comm]
  | sequence parts => exact placeParts_mentions_iff parts source target next
  | either branches => exact placeBranches_mentions_iff branches source target next
  | optional body =>
    have ih := place_mentions_iff body source target next
    simpa [place, Fragment.mentions_andThen, Fragment.mentions_edge, Language.events] using ih
  | zeroOrMore body =>
    have ih := place_mentions_iff body target target next
    simpa [place, Fragment.mentions_andThen, Fragment.mentions_edge, Language.events] using ih
  -- the two copies of the body mention the same events
  | oneOrMore body =>
    have ih := place_mentions_iff body source target next
    have again := place_mentions_iff body target target (place body source target next).next
    simp only [place, Fragment.mentions_andThen, ih, again, Language.events, or_self]

theorem placeParts_mentions_iff (parts : List Language) (source target next : Nat) :
    (placeParts parts source target next).Mentions e ↔ e ∈ Language.eventsOfAll parts := by
  match parts with
  | [] => simp [placeParts, Fragment.mentions_edge, Language.eventsOfAll]
  | [l] =>
    have ih := place_mentions_iff l source target next
    simpa [placeParts, Language.eventsOfAll] using ih
  | l :: part :: rest =>
    have first := place_mentions_iff l source next (next + 1)
    have others :=
      placeParts_mentions_iff (part :: rest) next target (place l source next (next + 1)).next
    rw [placeParts]
    . rw [Fragment.mentions_andThen, first, others]
      exact List.mem_append.symm
    . simp

theorem placeBranches_mentions_iff (branches : List Language) (source target next : Nat) :
    (placeBranches branches source target next).Mentions e ↔
      e ∈ Language.eventsOfAll branches := by
  match branches with
  | [] => simp [placeBranches, Fragment.Mentions, Language.eventsOfAll]
  | l :: rest =>
    have first := place_mentions_iff l source target next
    have others :=
      placeBranches_mentions_iff rest source target (place l source target next).next
    rw [placeBranches, Fragment.mentions_andThen, first, others]
    exact List.mem_append.symm

end

theorem exists_hasEdge_compile_iff (l : Language) :
    (∃ p q, (compile l).HasEdge p (some e) q) ↔ e ∈ l.events := by
  simp only [hasEdge_compile_iff]
  exact place_mentions_iff l 0 1 2

end Automaton

theorem Channels.declares_iff_mem_keys {channels : Channels} {e : Event} :
    channels.declares e = true ↔ e.channel ∈ (channels.table e.direction).keys := by
  rw [declares_iff, Table.mem_keys_iff]

namespace Protocol

variable {description : String} {channels : Channels} {l : Language} {protocol : Protocol}
variable {e : Event} {fault : Fault}

theorem parts_of_new (made : new description channels l = .ok protocol) :
    protocol.description = description ∧ protocol.channels = channels ∧ protocol.language = l := by
  unfold new at made
  split at made
  . cases made
  . cases made
    exact ⟨rfl, rfl, rfl⟩

theorem new_eq_error_iff : new description channels l = .error fault ↔
    ∃ before e after, l.events = before ++ e :: after ∧
      (∀ e' ∈ before, channels.declares e' = true) ∧ channels.declares e ≠ true ∧
      fault = .undeclaredChannel e := by
  unfold new
  split
  . next e found =>
    obtain ⟨undeclared, before, after, eq, declared⟩ := List.find?_eq_some_iff_append.1 found
    rw [Except.error.injEq]
    constructor
    . rintro rfl
      exact ⟨before, e, after, eq, by simpa using declared, by simpa using undeclared, rfl⟩
    . rintro ⟨before', e', after', eq', declared', undeclared', rfl⟩
      have found' : l.events.find? (!channels.declares ·) = some e' := by
        rw [List.find?_eq_some_iff_append]
        exact ⟨by simpa using undeclared', before', after', eq', by simpa using declared'⟩
      rw [found] at found'
      cases found'
      rfl
  . next none =>
    simp only [reduceCtorEq, false_iff]
    rintro ⟨before, e, after, eq, _, undeclared, _⟩
    have mem : e ∈ l.events := by simp [eq]
    exact undeclared (by simpa using List.find?_eq_none.1 none e mem)

theorem exists_new_iff : (∃ protocol, new description channels l = .ok protocol) ↔
    ∀ e ∈ l.events, channels.declares e = true := by
  constructor
  . rintro ⟨protocol, made⟩
    obtain ⟨_, rfl, rfl⟩ := parts_of_new made
    exact protocol.declared
  . intro declared
    obtain ⟨protocol, made, _⟩ := exists_new_of_declared description declared
    exact ⟨protocol, made⟩

variable {w : List Event}

theorem mem_events_of_expected (mem : e ∈ (protocol.newSession.follow w).expected) :
    e ∈ protocol.language.events := by
  rw [follow_newSession, Session.mem_expected_iff] at mem
  obtain ⟨p, _, q, edge⟩ := mem
  unfold Session.after at edge
  rw [Session.automaton_follow] at edge
  exact (Automaton.exists_hasEdge_compile_iff _).1 ⟨p, q, edge⟩

theorem push_of_not_declared (undeclared : protocol.channels.declares e ≠ true) :
    ((protocol.newSession.follow w).push e).verdict = .unexpected := by
  by_contra legal
  rw [follow_newSession, ← Ne,
    Session.verdict_push_ne_unexpected_iff Session.closed_after, ← follow_newSession] at legal
  exact undeclared (protocol.declared e (mem_events_of_expected legal))

/--
A protocol is made exactly if each leaf of its language names a channel in the table of its
direction; otherwise the first leaf from left to right that does not is reported. The events on the
edges of an automaton are the leaves of its language. Whatever has happened in a session of a
protocol, the expected events have a type, and an event on an undeclared channel is illegal.
-/
theorem closed_under_channels (description : String) (channels : Channels) (l : Language) :
    ((∃ protocol, new description channels l = .ok protocol) ↔
      l.Each (Language.IfLeaf fun e => e.channel ∈ (channels.table e.direction).keys)) ∧
    (∀ fault, new description channels l = .error fault ↔
      ∃ before e after, l.events = before ++ e :: after ∧
        (∀ e' ∈ before, e'.channel ∈ (channels.table e'.direction).keys) ∧
        e.channel ∉ (channels.table e.direction).keys ∧ fault = .undeclaredChannel e) ∧
    (∀ e, (∃ p q, (Automaton.compile l).HasEdge p (some e) q) ↔ e ∈ l.events) ∧
    ∀ protocol, new description channels l = .ok protocol →
      protocol.channels = channels ∧ protocol.language = l ∧ ∀ w,
        (∀ e ∈ (protocol.newSession.follow w).expected,
          ∃ type, protocol.resolve e = .ok type) ∧
        ∀ e, e.channel ∉ (channels.table e.direction).keys →
          ((protocol.newSession.follow w).push e).verdict = .unexpected := by
  simp only [← Channels.declares_iff_mem_keys]
  refine ⟨?_, ?_, ?_, ?_⟩
  . rw [exists_new_iff, Language.each_ifLeaf_iff]
  . intro fault
    exact new_eq_error_iff
  . intro e
    exact Automaton.exists_hasEdge_compile_iff l
  . intro protocol made
    obtain ⟨_, rfl, rfl⟩ := parts_of_new made
    refine ⟨rfl, rfl, ?_⟩
    intro w
    refine ⟨?_, fun e undeclared => push_of_not_declared undeclared⟩
    intro e mem
    have declared := protocol.declared e (mem_events_of_expected mem)
    obtain ⟨type, found⟩ := Channels.declares_iff.1 declared
    exact ⟨type, resolve_eq_ok_iff.2 found⟩

theorem closed_under_channels_repeated :
    let channels : Channels := ⟨.ofList [("a", "T")], .ofList [("b", "T")]⟩
    let l : Language := .sequence [.input "a", .oneOrMore (.output "b")]
    ∃ protocol, new "echo" channels l = .ok protocol ∧
      (protocol.newSession.follow [.input "a"]).expected = [.output "b"] ∧
      (∃ type, protocol.resolve (.output "b") = .ok type) ∧
      ∀ w, ((protocol.newSession.follow w).push (.output "a")).verdict = .unexpected := by
  intro channels l
  obtain ⟨made_iff, _, _, closed⟩ := closed_under_channels "echo" channels l
  have leaves :
      l.Each (Language.IfLeaf fun e => e.channel ∈ (channels.table e.direction).keys) := by
    simp only [l, Language.Each, Language.EachOf, Language.IfLeaf, Language.input, Language.output]
    decide
  obtain ⟨protocol, made⟩ := made_iff.2 leaves
  obtain ⟨_, language, closed⟩ := closed protocol made
  have expected : (protocol.newSession.follow [.input "a"]).expected = [.output "b"] := by
    rw [follow_newSession, language]
    cbv
  obtain ⟨resolves, _⟩ := closed [.input "a"]
  rw [expected] at resolves
  refine ⟨protocol, made, expected, resolves _ List.mem_cons_self, ?_⟩
  intro w
  exact (closed w).2 (.output "a") (by decide)

end Protocol

end Interaction
