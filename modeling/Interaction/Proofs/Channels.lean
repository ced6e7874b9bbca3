import Interaction.Protocol

/-!
This module contains which channels a protocol knows, those in the tables of their directions, and
of which parts a protocol is made.
-/

namespace Interaction

theorem Table.mem_keys_iff {α : Type} {t : Table α} {key : String} :
    key ∈ t.keys ↔ ∃ value, t.get? key = some value := by
  unfold keys get?
  induction t.entries with
  | nil => simp
  | cons entry rest ih =>
    rw [List.map_cons, List.mem_cons, List.lookup_cons]
    cases same : key == entry.1 with
    | true => simp [beq_iff_eq.1 same]
    | false =>
      have ne : key ≠ entry.1 := by simpa using same
      simp [ne, ih]

theorem Channels.declares_iff {channels : Channels} {e : Event} :
    channels.declares e = true ↔
      ∃ type, (channels.table e.direction).get? e.channel = some type := by
  unfold declares Table.contains
  rw [Option.isSome_iff_exists]

namespace Protocol

variable {protocol : Protocol} {e : Event}

theorem exists_new_of_declared (description : String) {channels : Channels} {language : Language}
    (declared : ∀ e ∈ language.events, channels.declares e = true) :
    ∃ protocol : Protocol, new description channels language = .ok protocol ∧
      protocol.description = description ∧ protocol.channels = channels ∧
      protocol.language = language := by
  unfold new
  split
  . next e found =>
    have undeclared := List.find?_some found
    rw [declared e (List.mem_of_find?_eq_some found)] at undeclared
    cases undeclared
  . exact ⟨_, rfl, rfl, rfl, rfl⟩

theorem eq_of_parts {p q : Protocol} (description : p.description = q.description)
    (channels : p.channels = q.channels) (language : p.language = q.language) : p = q := by
  obtain ⟨_, _, _, _, _, rfl⟩ := p
  obtain ⟨_, _, _, _, _, rfl⟩ := q
  cases description
  cases channels
  cases language
  rfl

theorem new_eq_self (p : Protocol) : new p.description p.channels p.language = .ok p := by
  obtain ⟨q, made, description, channels, language⟩ :=
    exists_new_of_declared p.description p.declared
  rw [made, eq_of_parts description channels language]

theorem resolve_eq_ok_iff {type : PayloadType} :
    protocol.resolve e = .ok type ↔
      (protocol.channels.table e.direction).get? e.channel = some type := by
  unfold resolve
  simp only
  split
  . next found => rw [found, Except.ok.injEq, Option.some.injEq]
  . next missing => simp [missing]

theorem mem_keys_of_resolve {type : PayloadType} (h : protocol.resolve e = .ok type) :
    e.channel ∈ (protocol.channels.table e.direction).keys :=
  Table.mem_keys_iff.2 ⟨type, resolve_eq_ok_iff.1 h⟩

theorem resolve_eq_error {fault : Fault} (h : protocol.resolve e = .error fault) :
    fault = .unknownChannel e (protocol.channels.table e.direction).keys := by
  unfold resolve at h
  simp only at h
  split at h
  . cases h
  . cases h
    rfl

end Protocol

end Interaction
