import Interaction.Message.Lines
import Interaction.Proofs.Json.Slots
import Interaction.Proofs.Message.Grammar
import Interaction.Proofs.Text.Encoding
import Mathlib

/-!
This module contains the proof that messages are read from exactly the lines that spell them.
-/

namespace Interaction

open Json (Reader Record Slot Tree Piece Gap gap_nil)
open Json.Tree (nullable? fields? members? optional? required?)

namespace Timestamp

def slots : List (Slot Partial) := [
  { content := Int, field := record.fields.get ⟨0, by decide⟩, mean := Tree.int64?,
    get := (·.seconds), put := fun v p => { p with seconds := some v } },
  { content := Int, field := record.fields.get ⟨1, by decide⟩, mean := Tree.int64?,
    get := (·.microseconds), put := fun v p => { p with microseconds := some v } }]

theorem separate_slots : Slot.Separate slots := by
  apply Slot.Separate.of_pairwise
  . simp [slots, Slot.sound_iff, record]
  . simp [slots, Slot.independent_iff, Slot.name, record]
  . rintro ⟨_, _⟩ ⟨_, _⟩ same
    simpa [slots] using same

theorem finish_eq_ok_iff {p : Partial} {t : Timestamp} :
    record.finish p = .ok t ↔ ∃ seconds microseconds,
      p = ⟨some seconds, some microseconds⟩ ∧ t = ⟨seconds, microseconds⟩ := by
  obtain ⟨seconds, microseconds⟩ := p
  cases seconds <;> cases microseconds <;> simp [record, eq_comm]

theorem described (levels : Nat) : record.Described levels slots where
  separate := separate_slots
  fields := rfl
  reads := by
    simp only [slots, List.forall_mem_cons]
    exact ⟨
      fun p n => (Reader.reads_int64 n).map fun v => ({ p with seconds := some v } : Partial),
      fun p n => (Reader.reads_int64 n).map fun v => ({ p with microseconds := some v } : Partial),
      nofun⟩
  unset := by
    simp only [slots, List.forall_mem_cons]
    exact ⟨rfl, rfl, nofun⟩
  required finish := by
    obtain ⟨seconds, microseconds, rfl, _⟩ := finish_eq_ok_iff.1 finish
    simp [slots]

theorem reads_record (levels : Nat) :
    Reader.Reads (record.read (levels + 1)) (ofTree? fields?) := by
  apply (described levels).reads_read
  intro tree t
  simp only [slots, List.forall_mem_cons, finish_eq_ok_iff]
  constructor
  . intro h
    obtain ⟨fields, isFields, h⟩ := Option.bind_eq_some_iff.1 h
    obtain ⟨seconds, first, h⟩ := Option.bind_eq_some_iff.1 h
    obtain ⟨microseconds, second, h⟩ := Option.bind_eq_some_iff.1 h
    cases h
    exact ⟨fields, ⟨some seconds, some microseconds⟩, isFields,
      ⟨Option.join_eq_some_iff.1 first, Option.join_eq_some_iff.1 second, nofun⟩,
      seconds, microseconds, rfl, rfl⟩
  . rintro ⟨fields, _, isFields, ⟨first, second, _⟩, seconds, microseconds, rfl, rfl⟩
    exact Option.bind_eq_some_iff.2 ⟨fields, isFields,
      Option.bind_eq_some_iff.2 ⟨seconds, Option.join_eq_some_iff.2 first,
        Option.bind_eq_some_iff.2 ⟨microseconds, Option.join_eq_some_iff.2 second, rfl⟩⟩⟩

end Timestamp

namespace TimeSpec

def slots : List (Slot Partial) := [
  { content := Timestamp, field := record.fields.get ⟨0, by decide⟩,
    mean := Timestamp.ofTree? fields?,
    get := (·.time), put := fun v p => { p with time := some v } },
  { content := Option Timestamp, field := record.fields.get ⟨1, by decide⟩,
    mean := nullable? (Timestamp.ofTree? fields?),
    get := (·.time2), put := fun v p => { p with time2 := some v } },
  { content := String, field := record.fields.get ⟨2, by decide⟩, mean := Tree.text?,
    get := (·.frame), put := fun v p => { p with frame := some v } },
  { content := String, field := record.fields.get ⟨3, by decide⟩, mean := Tree.text?,
    get := (·.clock), put := fun v p => { p with clock := some v } }]

theorem separate_slots : Slot.Separate slots := by
  apply Slot.Separate.of_pairwise
  . simp [slots, Slot.sound_iff, record]
  . simp [slots, Slot.independent_iff, Slot.name, record]
  . rintro ⟨_, _, _, _⟩ ⟨_, _, _, _⟩ same
    simpa [slots] using same

theorem finish_eq_ok_iff {p : Partial} {t : TimeSpec} :
    record.finish p = .ok t ↔ ∃ time time2 frame clock,
      p = ⟨some time, time2, some frame, some clock⟩ ∧
        t = ⟨time, time2.getD none, frame, clock⟩ := by
  obtain ⟨time, time2, frame, clock⟩ := p
  cases time <;> cases frame <;> cases clock <;> simp [record, eq_comm]

theorem described (levels : Nat) : record.Described (levels + 1) slots where
  separate := separate_slots
  fields := rfl
  reads := by
    have stamp := Timestamp.reads_record levels
    simp only [slots, List.forall_mem_cons]
    exact ⟨
      fun p n => (stamp n).map fun v => ({ p with time := some v } : Partial),
      fun p n => ((stamp n).nullable rfl).map fun v => ({ p with time2 := some v } : Partial),
      fun p n => (Reader.reads_string n).map fun v => ({ p with frame := some v } : Partial),
      fun p n => (Reader.reads_string n).map fun v => ({ p with clock := some v } : Partial),
      nofun⟩
  unset := by
    simp only [slots, List.forall_mem_cons]
    exact ⟨rfl, rfl, rfl, rfl, nofun⟩
  required finish := by
    obtain ⟨time, time2, frame, clock, rfl, _⟩ := finish_eq_ok_iff.1 finish
    simp [slots, record]

theorem reads_record (levels : Nat) :
    Reader.Reads (record.read (levels + 2)) (ofTree? fields?) := by
  apply (described levels).reads_read
  intro tree t
  simp only [slots, List.forall_mem_cons, finish_eq_ok_iff]
  constructor
  . intro h
    obtain ⟨fields, isFields, h⟩ := Option.bind_eq_some_iff.1 h
    obtain ⟨time, first, h⟩ := Option.bind_eq_some_iff.1 h
    obtain ⟨time2, second, h⟩ := Option.bind_eq_some_iff.1 h
    obtain ⟨frame, third, h⟩ := Option.bind_eq_some_iff.1 h
    obtain ⟨clock, fourth, h⟩ := Option.bind_eq_some_iff.1 h
    cases h
    exact ⟨fields, ⟨some time, time2, some frame, some clock⟩, isFields,
      ⟨Option.join_eq_some_iff.1 first, second, Option.join_eq_some_iff.1 third,
        Option.join_eq_some_iff.1 fourth, nofun⟩, time, time2, frame, clock, rfl, rfl⟩
  . rintro ⟨fields, _, isFields, ⟨first, second, third, fourth, _⟩, time, time2, frame, clock,
      rfl, rfl⟩
    exact Option.bind_eq_some_iff.2 ⟨fields, isFields,
      Option.bind_eq_some_iff.2 ⟨time, Option.join_eq_some_iff.2 first,
        Option.bind_eq_some_iff.2 ⟨time2, second,
          Option.bind_eq_some_iff.2 ⟨frame, Option.join_eq_some_iff.2 third,
            Option.bind_eq_some_iff.2 ⟨clock, Option.join_eq_some_iff.2 fourth, rfl⟩⟩⟩⟩⟩

end TimeSpec

namespace Timing

def slots : List (Slot Partial) := [
  { content := Option (Table TimeSpec), field := record.fields.get ⟨0, by decide⟩,
    mean := hopsOfTree? fields?,
    get := (·.acquired), put := fun v p => { p with acquired := some v } },
  { content := Option (Table TimeSpec), field := record.fields.get ⟨1, by decide⟩,
    mean := hopsOfTree? fields?,
    get := (·.processed), put := fun v p => { p with processed := some v } },
  { content := Option TimeSpec, field := record.fields.get ⟨2, by decide⟩,
    mean := nullable? (TimeSpec.ofTree? fields?),
    get := (·.received), put := fun v p => { p with received := some v } }]

theorem separate_slots : Slot.Separate slots := by
  apply Slot.Separate.of_pairwise
  . simp [slots, Slot.sound_iff, record]
  . simp [slots, Slot.independent_iff, Slot.name, record]
  . rintro ⟨_, _, _⟩ ⟨_, _, _⟩ same
    simpa [slots] using same

theorem reads_hops (levels n : Nat) :
    Reader.ReadsWithin n (readHops (levels + 3)) (hopsOfTree? fields?) :=
  (Reader.reads_table (TimeSpec.reads_record levels n)).nullable rfl

theorem described (levels : Nat) : record.Described (levels + 3) slots where
  separate := separate_slots
  fields := rfl
  reads := by
    have received := TimeSpec.reads_record (levels + 1)
    simp only [slots, List.forall_mem_cons]
    exact ⟨
      fun p n => (reads_hops levels n).map fun v => ({ p with acquired := some v } : Partial),
      fun p n => (reads_hops levels n).map fun v => ({ p with processed := some v } : Partial),
      fun p n => ((received n).nullable rfl).map fun v => ({ p with received := some v } : Partial),
      nofun⟩
  unset := by
    simp only [slots, List.forall_mem_cons]
    exact ⟨rfl, rfl, rfl, nofun⟩
  required finish := by
    simp [slots, record]

theorem reads_record (levels : Nat) :
    Reader.Reads (record.read (levels + 4)) (ofTree? fields?) := by
  apply (described levels).reads_read
  intro tree t
  simp only [slots, List.forall_mem_cons]
  constructor
  . intro h
    obtain ⟨fields, isFields, h⟩ := Option.bind_eq_some_iff.1 h
    obtain ⟨acquired, first, h⟩ := Option.bind_eq_some_iff.1 h
    obtain ⟨processed, second, h⟩ := Option.bind_eq_some_iff.1 h
    obtain ⟨received, third, h⟩ := Option.bind_eq_some_iff.1 h
    cases h
    exact ⟨fields, ⟨acquired, processed, received⟩, isFields, ⟨first, second, third, nofun⟩, rfl⟩
  . rintro ⟨fields, p, isFields, ⟨first, second, third, _⟩, finish⟩
    cases finish
    exact Option.bind_eq_some_iff.2 ⟨fields, isFields,
      Option.bind_eq_some_iff.2 ⟨p.acquired, first,
        Option.bind_eq_some_iff.2 ⟨p.processed, second,
          Option.bind_eq_some_iff.2 ⟨p.received, third, rfl⟩⟩⟩⟩

end Timing

namespace Message

def slots : List (Slot Partial) := [
  { content := String, field := record.fields.get ⟨0, by decide⟩, mean := Tree.text?,
    get := (·.topic), put := fun v p => { p with topic := some v } },
  { content := Json, field := record.fields.get ⟨1, by decide⟩,
    mean := Tree.valueWithin? (Json.maxLevels - 1),
    get := (·.data), put := fun v p => { p with data := some v } },
  { content := Option Timing, field := record.fields.get ⟨2, by decide⟩,
    mean := nullable? (Timing.ofTree? fields?),
    get := (·.timing), put := fun v p => { p with timing := some v } }]

theorem separate_slots : Slot.Separate slots := by
  apply Slot.Separate.of_pairwise
  . simp [slots, Slot.sound_iff, record]
  . simp [slots, Slot.independent_iff, Slot.name, record]
  . rintro ⟨_, _, _⟩ ⟨_, _, _⟩ same
    simpa [slots] using same

theorem finish_eq_ok_iff {p : Partial} {m : Message} :
    record.finish p = .ok m ↔ ∃ topic data timing,
      p = ⟨some topic, data, timing⟩ ∧ m = ⟨topic, data.getD .null, timing.getD none⟩ := by
  obtain ⟨topic, data, timing⟩ := p
  cases topic <;> simp [record, eq_comm]

theorem described : record.Described (Json.maxLevels - 1) slots where
  separate := separate_slots
  fields := rfl
  reads := by
    have data := Reader.reads_value (Json.maxLevels - 1)
    have timing := Timing.reads_record (Json.maxLevels - 5)
    simp only [slots, List.forall_mem_cons]
    exact ⟨
      fun p n => (Reader.reads_string n).map fun v => ({ p with topic := some v } : Partial),
      fun p n => (data n).map fun v => ({ p with data := some v } : Partial),
      fun p n => ((timing n).nullable rfl).map fun v => ({ p with timing := some v } : Partial),
      nofun⟩
  unset := by
    simp only [slots, List.forall_mem_cons]
    exact ⟨rfl, rfl, rfl, nofun⟩
  required finish := by
    obtain ⟨topic, data, timing, rfl, _⟩ := finish_eq_ok_iff.1 finish
    simp [slots, record]

theorem reads_record : Reader.Reads (record.read Json.maxLevels) (ofTree? fields?) := by
  apply described.reads_read
  intro tree m
  simp only [slots, List.forall_mem_cons, finish_eq_ok_iff]
  constructor
  . intro h
    obtain ⟨fields, isFields, h⟩ := Option.bind_eq_some_iff.1 h
    obtain ⟨topic, first, h⟩ := Option.bind_eq_some_iff.1 h
    obtain ⟨data, second, h⟩ := Option.bind_eq_some_iff.1 h
    obtain ⟨timing, third, h⟩ := Option.bind_eq_some_iff.1 h
    cases h
    exact ⟨fields, ⟨some topic, data, timing⟩, isFields,
      ⟨Option.join_eq_some_iff.1 first, second, third, nofun⟩, topic, data, timing, rfl, rfl⟩
  . rintro ⟨fields, _, isFields, ⟨first, second, third, _⟩, topic, data, timing, rfl, rfl⟩
    exact Option.bind_eq_some_iff.2 ⟨fields, isFields,
      Option.bind_eq_some_iff.2 ⟨topic, Option.join_eq_some_iff.2 first,
        Option.bind_eq_some_iff.2 ⟨data, second,
          Option.bind_eq_some_iff.2 ⟨timing, third, rfl⟩⟩⟩⟩

theorem parse_eq_ok_iff {content : List Char} {m : Message} (flush : Text.Unpadded content) :
    parse content = .ok m ↔ ∃ tree, Tree.Spells tree content ∧ ofTree? fields? tree = some m :=
  reads_record.run_eq_ok_iff_of_unpadded flush

end Message

namespace Lines

/-- What a line spells, without the white space at its ends. -/
def Spells (line : List UInt8) (tree : Tree) : Prop :=
  ∃ text, Text.decode? line = some text ∧ tree.Spells (Text.trim text.toList)

theorem parse_eq_ok_iff {line : List UInt8} {m : Message} : parse line = some (.ok m) ↔
    ∃ tree, Spells line tree ∧ Message.ofTree? fields? tree = some m := by
  unfold parse Spells
  cases eq : Text.decode? line with
  | none => simp
  | some text =>
    simp only [Option.some.injEq, exists_eq_left']
    split
    . next empty =>
      -- no tree is spelled by nothing
      rw [List.isEmpty_iff.1 empty]
      refine iff_of_false nofun ?_
      rintro ⟨tree, spells, _⟩
      obtain ⟨x, t, eq, _⟩ := spells.exists_head
      cases eq
    . rw [← Message.parse_eq_ok_iff (Text.unpadded_trim text.toList)]
      cases Message.parse (Text.trim text.toList) <;> simp [Except.mapError]

/--
A line holds a message if it spells a tree that is one, where records may be written as objects or
as arrays. So all messages are read whose records are objects with the fields they should have.
-/
theorem parse_eq_ok_iff_spelled (line : List UInt8) (m : Message) :
    (parse line = some (.ok m) ↔
      ∃ tree, Spells line tree ∧ Message.ofTree? fields? tree = some m) ∧
    ((∃ tree, Spells line tree ∧ Message.ofTree? members? tree = some m) →
      parse line = some (.ok m)) := by
  refine ⟨parse_eq_ok_iff, ?_⟩
  rintro ⟨tree, spells, meaning⟩
  exact parse_eq_ok_iff.2 ⟨tree, spells, Message.ofTree?_of_members meaning⟩

def topicKey : List Json.Piece :=
  [.code ['0', '0', '7', '4'] 0x74 rfl, .plain 'o' (by decide), .plain 'p' (by decide),
    .plain 'i' (by decide), .plain 'c' (by decide)]

theorem parse_eq_ok_iff_spelled_escaped :
    let line := Text.encode " \x7b\"\\u0074opic\" :\"a\", \"x\":null\x7d\n"
    (∃ tree, Spells line tree ∧ Message.ofTree? members? tree = some (.new "a" .null)) ∧
      parse line = some (.ok (.new "a" .null)) := by
  intro line
  have gap : Gap [' '] := by simp [Gap, Reader.isSpace]
  have spells : Tree.Spells (.object [(topicKey, .string [.plain 'a' (by decide)]),
      ([.plain 'x' (by decide)], .null)])
      (Text.trim (" \x7b\"\\u0074opic\" :\"a\", \"x\":null\x7d\n").toList) :=
    .object (.cons (.first gap_nil) (.mk gap gap_nil (.string _))
      (.cons (.next gap_nil gap) (.mk gap_nil gap_nil .null) (.nil gap_nil)))
  have spelled : ∃ tree, Spells line tree ∧
      Message.ofTree? members? tree = some (.new "a" .null) :=
    ⟨_, ⟨_, Text.decode?_encode _, spells⟩, rfl⟩
  exact ⟨spelled, (parse_eq_ok_iff_spelled _ _).2 spelled⟩

/-- A message may be written without the names of its fields. -/
theorem not_parse_iff_members :
    ¬∀ line m, parse line = some (.ok m) ↔
      ∃ tree, Spells line tree ∧ Message.ofTree? members? tree = some m := by
  intro exact
  have parsed : parse (Text.encode "[\"a\", 1]\n") = some (.ok (.new "a" (.ofInt 1))) := by cbv
  obtain ⟨tree, ⟨text, decoded, spells⟩, meaning⟩ := (exact _ _).1 parsed
  cases (Text.decode?_encode _).symm.trans decoded
  obtain ⟨fields, isFields, _⟩ := Option.bind_eq_some_iff.1 meaning
  cases eq : tree with
  | object members =>
    -- the text of an object begins with a brace
    rw [eq] at spells
    generalize eq' : Text.trim _ = content at spells
    have bracket : content.head? = some '[' := by
      rw [← eq']
      rfl
    cases spells
    cases bracket
  | _ =>
    rw [eq] at isFields
    cases isFields

end Lines

end Interaction
