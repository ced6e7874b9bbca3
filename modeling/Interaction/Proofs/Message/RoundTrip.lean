import Interaction.Message.Reader
import Interaction.Proofs.Json.Record
import Interaction.Proofs.Json.RoundTrip
import Interaction.Proofs.Message.Lines
import Interaction.Proofs.Text.Blank
import Interaction.Proofs.Text.Encoding

/-!
This module contains the proof that messages are read from their lines as they were written.
-/

namespace Interaction

open Json (Reader Record Field)

namespace Json.Record

variable {σ α β : Type} {r : Record σ α} {levels : Nat} {s : σ} {field : Field σ} {key : String}
variable {members : List (String × Json)}

theorem Takes.optional (set : Option (Option β) → σ) {toJson : β → Json} {v : Option β}
    (declared : r.fields.find? (·.name == key) = some field)
    (unset : field.isSet (set none) = false)
    (read : ∀ b, v = some b →
      Reader.Recovers (field.read levels (set none)) (toJson b).chars (set (some (some b))))
    (more : Takes r levels (set (v.map some)) members s) :
    Takes r levels (set none) (optionalMember key toJson v ++ members) s := by
  cases v with
  | none => exact more
  | some b => exact .cons declared unset (read b rfl) more

theorem getD_map_some (v : Option β) : (v.map some).getD none = v := by
  cases v <;> rfl

end Json.Record

namespace Timestamp

/-- Whether a time stamp fits into integers of 64 bits with a sign. -/
structure Portable (t : Timestamp) : Prop where
  seconds : Int64.minValue.toInt ≤ t.seconds ∧ t.seconds ≤ Int64.maxValue.toInt
  microseconds : Int64.minValue.toInt ≤ t.microseconds ∧ t.microseconds ≤ Int64.maxValue.toInt

theorem Portable.recovers {t : Timestamp} (h : t.Portable) (levels : Nat) :
    Reader.Recovers (record.read (levels + 1)) t.toJson.chars t := by
  have seconds := Reader.recovers_int64 h.seconds
  have microseconds := Reader.recovers_int64 h.microseconds
  apply Record.Takes.recovers (s := ⟨some t.seconds, some t.microseconds⟩) _ rfl
  apply Record.Takes.cons rfl rfl (seconds.store _)
  apply Record.Takes.cons rfl rfl (microseconds.store _)
  exact .nil _

end Timestamp

namespace TimeSpec

structure Portable (t : TimeSpec) : Prop where
  time : t.time.Portable
  time2 : ∀ time2, t.time2 = some time2 → time2.Portable

theorem Portable.recovers {t : TimeSpec} (h : t.Portable) (levels : Nat) :
    Reader.Recovers (record.read (levels + 2)) t.toJson.chars t := by
  have time := h.time.recovers levels
  have time2 := fun time2 eq => ((h.time2 time2 eq).recovers levels).nullable
  have frame := Reader.recovers_string t.frame
  have clock := Reader.recovers_string t.clock
  have finish : record.finish ⟨some t.time, t.time2.map some, some t.frame, some t.clock⟩ =
      .ok t := by
    simp only [record, Record.getD_map_some]
  apply Record.Takes.recovers _ finish
  apply Record.Takes.cons rfl rfl (time.store _)
  apply Record.Takes.optional (fun time2 => Partial.mk (some t.time) time2 none none) rfl rfl
    fun time2' eq => (time2 time2' eq).store _
  apply Record.Takes.cons rfl rfl (frame.store _)
  apply Record.Takes.cons rfl rfl (clock.store _)
  exact .nil _

end TimeSpec

namespace Timing

structure Portable (t : Timing) : Prop where
  acquired : ∀ hops, t.acquired = some hops → ∀ hop ∈ hops.entries, hop.2.Portable
  processed : ∀ hops, t.processed = some hops → ∀ hop ∈ hops.entries, hop.2.Portable
  received : ∀ time, t.received = some time → time.Portable

theorem recovers_hops {hops : Table TimeSpec} (h : ∀ hop ∈ hops.entries, hop.2.Portable)
    (levels : Nat) :
    Reader.Recovers (readHops (levels + 3)) (hopsToJson hops).chars (some hops) :=
  (Reader.recovers_table fun hop mem => (h hop mem).recovers levels).nullable

theorem Portable.recovers {t : Timing} (h : t.Portable) (levels : Nat) :
    Reader.Recovers (record.read (levels + 4)) t.toJson.chars t := by
  have acquired := fun hops eq => recovers_hops (h.acquired hops eq) levels
  have processed := fun hops eq => recovers_hops (h.processed hops eq) levels
  have received := fun time eq => ((h.received time eq).recovers (levels + 1)).nullable
  have finish : record.finish
      ⟨t.acquired.map some, t.processed.map some, t.received.map some⟩ = .ok t := by
    simp only [record, Record.getD_map_some]
  unfold toJson
  rw [← List.append_nil (_ ++ _), List.append_assoc, List.append_assoc]
  apply Record.Takes.recovers _ finish
  apply Record.Takes.optional (fun acquired => Partial.mk acquired none none) rfl rfl
    fun hops eq => (acquired hops eq).store _
  apply Record.Takes.optional (fun processed => Partial.mk (t.acquired.map some) processed none)
    rfl rfl fun hops eq => (processed hops eq).store _
  apply Record.Takes.optional
    (fun received => Partial.mk (t.acquired.map some) (t.processed.map some) received) rfl rfl
    fun time eq => (received time eq).store _
  exact .nil _

end Timing

namespace Message

/--
Whether a message keeps its meaning as a line: so do its data, its times fit into integers of 64
bits with a sign, and its line does not nest more containers than a reader passes.
-/
structure Portable (m : Message) : Prop where
  data : m.data.Portable
  timing : ∀ timing, m.timing = some timing → timing.Portable
  depth : m.toJson.depth < 128

theorem Portable.recovers {m : Message} (h : m.Portable) :
    Reader.Recovers (record.read Json.maxLevels) m.toJson.chars m := by
  -- the object of the line takes one level of the data
  have inner : m.data.depth ≤ 126 := by
    have member : ("data", m.data) ∈ ("topic", Json.string m.topic) :: ("data", m.data) ::
        Json.optionalMember "timing" Timing.toJson m.timing := by simp
    have outer := h.depth
    have le : m.data.depth ≤ _ := Json.depth_le_membersDepth member
    unfold toJson Json.depth at outer
    omega
  have topic := Reader.recovers_string m.topic
  have data := h.data.recovers inner
  have timing := fun timing eq => ((h.timing timing eq).recovers 122).nullable
  have finish : record.finish ⟨some m.topic, some m.data, m.timing.map some⟩ = .ok m := by
    simp only [record, Option.getD_some, Record.getD_map_some]
  unfold toJson
  rw [← List.append_nil (Json.optionalMember _ _ _)]
  apply Record.Takes.recovers _ finish
  apply Record.Takes.cons rfl rfl (topic.store _)
  apply Record.Takes.cons rfl rfl (data.store _)
  apply Record.Takes.optional (fun timing => Partial.mk (some m.topic) (some m.data) timing)
    rfl rfl fun times eq => (timing times eq).store _
  exact .nil _

theorem toList_line (m : Message) : m.line.toList = m.toJson.chars ++ ['\n'] := by
  unfold line Json.render
  rw [String.toList_append, String.toList_ofList]
  rfl

theorem unpadded_chars (m : Message) : Text.Unpadded m.toJson.chars := by
  unfold toJson Json.chars
  rintro c (head | last)
  . cases head
    decide
  . rw [← List.cons_append, List.getLast?_concat] at last
    cases last
    decide

end Message

namespace Lines

variable {m : Message}

theorem parse_line (h : m.Portable) : parse (Text.encode m.line) = some (.ok m) := by
  have some : m.toJson.chars ≠ [] := by
    unfold Message.toJson Json.chars
    simp
  have content : Text.trim m.line.toList = m.toJson.chars := by
    rw [m.toList_line]
    exact Text.trim_append_of_unpadded m.unpadded_chars (List.forall_mem_singleton.2 rfl)
  have read : Message.parse m.toJson.chars = .ok m := h.recovers.run
  unfold parse
  simp only [Text.decode?_encode, content, List.isEmpty_iff, some, read]
  rfl

def write (messages : List Message) : List UInt8 :=
  messages.flatMap fun m => Text.encode m.line

theorem encode_line (m : Message) : Text.encode m.line = Text.encode m.toJson.render ++ [10] := by
  unfold Message.line
  rw [Text.encode_append]
  rfl

theorem cut_encode_line (m : Message) : cut (Text.encode m.line) = [Text.encode m.line] := by
  have noFeed : 10 ∉ Text.encode m.toJson.render := by
    rw [← List.count_eq_zero, Text.count_encode]
    exact List.count_eq_zero_of_not_mem m.toJson.not_mem_render_lineFeed
  rw [encode_line]
  apply cut_eq_singleton
  . simp
  . rw [List.dropLast_concat]
    exact noFeed

theorem cut_write (messages : List Message) :
    cut (write messages) = messages.map fun m => Text.encode m.line := by
  induction messages with
  | nil => rfl
  | cons m messages ih =>
    have boundary : Boundary (Text.encode m.line) := by
      rw [encode_line]
      exact .inr List.getLast?_concat
    unfold write at *
    rw [List.flatMap_cons, cut_append boundary, ih, cut_encode_line]
    rfl

theorem count_write (messages : List Message) : (write messages).count 10 = messages.length := by
  unfold write
  induction messages with
  | nil => rfl
  | cons m messages ih =>
    rw [List.flatMap_cons, List.count_append, ih, Text.count_encode, m.count_line,
      List.length_cons, Nat.add_comm]

theorem numberAfter_line (number : Nat) (m : Message) :
    numberAfter number (Text.encode m.line) = number + 1 := by
  unfold numberAfter
  rw [Text.decode?_encode]
  rfl

theorem readFrom_lines (number : Nat) {messages : List Message}
    (portable : ∀ m ∈ messages, m.Portable) :
    readFrom number (messages.map fun m => Text.encode m.line) =
      messages.mapIdx fun i m => (number + i + 1, .ok m) := by
  induction messages generalizing number with
  | nil => rfl
  | cons m messages ih =>
    rw [List.forall_mem_cons] at portable
    rw [List.map_cons, List.mapIdx_cons, readFrom, numberAfter_line]
    simp only [parse_line portable.1, ih (number + 1) portable.2]
    simp [Nat.add_comm, Nat.add_left_comm]

theorem foldl_numberAfter_lines (number : Nat) (messages : List Message) :
    (messages.map fun m => Text.encode m.line).foldl numberAfter number =
      number + messages.length := by
  induction messages generalizing number with
  | nil => rfl
  | cons m messages ih =>
    rw [List.map_cons, List.foldl_cons, numberAfter_line, ih, List.length_cons]
    omega

/--
Messages that are written one after another have one line each. They are read as they were, in
their order and without an error, each with its number, and the last number is how many they are.
-/
theorem read_write (messages : List Message) (portable : ∀ m ∈ messages, m.Portable) :
    (write messages).count 10 = messages.length ∧
    cut (write messages) = messages.map (fun m => Text.encode m.line) ∧
    read (write messages) = messages.mapIdx (fun i m => (i + 1, .ok m)) ∧
    count (write messages) = messages.length := by
  refine ⟨count_write messages, cut_write messages, ?_, ?_⟩
  . unfold read
    rw [cut_write, readFrom_lines 0 portable]
    simp
  . unfold count
    rw [cut_write, foldl_numberAfter_lines, Nat.zero_add]

def timedMessage : Message :=
  ⟨"\u0001\n \"é\"\u2028",
    .object [("", .array [.null, .ofInt Int64.minValue.toInt]), ("\\", .ofNat (UInt64.size - 1))],
    some ⟨some (Table.empty.insert "camera" ⟨⟨10, -5⟩, none, "robot", "\t"⟩), some Table.empty,
      some ⟨⟨11, 0⟩, some ⟨11, 7⟩, "robot", ""⟩⟩⟩

theorem portable_timedMessage : timedMessage.Portable := by
  have data : timedMessage.data.Portable := by
    apply Json.Portable.object (by decide)
    rw [List.forall_mem_cons, List.forall_mem_singleton]
    constructor
    . apply Json.Portable.array
      rw [List.forall_mem_cons, List.forall_mem_singleton]
      exact ⟨.null, .integer (by decide) (by decide)⟩
    . exact .integer (by decide) (by decide)
  refine ⟨data, ?_, by decide⟩
  rintro timing ⟨⟩
  constructor
  . rintro hops ⟨⟩ hop mem
    cases List.mem_singleton.1 mem
    exact ⟨⟨by decide, by decide⟩, nofun⟩
  . rintro hops ⟨⟩ hop mem
    cases mem
  . rintro time ⟨⟩
    refine ⟨⟨by decide, by decide⟩, ?_⟩
    rintro time2 ⟨⟩
    exact ⟨by decide, by decide⟩

theorem read_write_timedMessage :
    (∀ m ∈ [timedMessage, .new "" .null], m.Portable) ∧
      (write [timedMessage, .new "" .null]).count 10 = 2 ∧
      cut (write [timedMessage, .new "" .null]) =
        [Text.encode timedMessage.line, Text.encode (Message.new "" .null).line] ∧
      read (write [timedMessage, .new "" .null]) =
        [(1, .ok timedMessage), (2, .ok (.new "" .null))] ∧
      count (write [timedMessage, .new "" .null]) = 2 := by
  have portable : ∀ m ∈ [timedMessage, .new "" .null], m.Portable := by
    rw [List.forall_mem_cons, List.forall_mem_singleton]
    exact ⟨portable_timedMessage, .null, nofun, by decide⟩
  exact ⟨portable, read_write _ portable⟩

end Lines

end Interaction
