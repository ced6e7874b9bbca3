import Interaction.Json.Record
import Interaction.Message.Basic

/-!
This module contains the reader of messages from their lines.
-/

namespace Interaction

open Json (Reader Record Field Cause)

namespace Timestamp

structure Partial where
  seconds : Option Int
  microseconds : Option Int

def record : Record Partial Timestamp where
  name := "Timestamp"
  fields := [
    { name := "s", required := true, isSet := (·.seconds.isSome),
      read := fun _ p => do pure { p with seconds := some (← Reader.int64) } },
    { name := "us", required := true, isSet := (·.microseconds.isSome),
      read := fun _ p => do pure { p with microseconds := some (← Reader.int64) } }]
  empty := ⟨none, none⟩
  finish p :=
    match p.seconds, p.microseconds with
    | some s, some us => .ok ⟨s, us⟩
    | none, _ => .error (.missingField "s")
    | _, none => .error (.missingField "us")

end Timestamp

namespace TimeSpec

structure Partial where
  time : Option Timestamp
  time2 : Option (Option Timestamp)
  frame : Option String
  clock : Option String

def record : Record Partial TimeSpec where
  name := "TimeSpec"
  fields := [
    { name := "time", required := true, isSet := (·.time.isSome),
      read := fun levels p => do
        pure { p with time := some (← Timestamp.record.read levels) } },
    { name := "time2", required := false, isSet := (·.time2.isSome),
      read := fun levels p => do
        pure { p with time2 := some (← Reader.nullable (Timestamp.record.read levels)) } },
    { name := "frame", required := true, isSet := (·.frame.isSome),
      read := fun _ p => do pure { p with frame := some (← Reader.string) } },
    { name := "clock", required := true, isSet := (·.clock.isSome),
      read := fun _ p => do pure { p with clock := some (← Reader.string) } }]
  empty := ⟨none, none, none, none⟩
  finish p :=
    match p.time, p.frame, p.clock with
    | some time, some frame, some clock => .ok ⟨time, p.time2.getD none, frame, clock⟩
    | none, _, _ => .error (.missingField "time")
    | _, none, _ => .error (.missingField "frame")
    | _, _, none => .error (.missingField "clock")

end TimeSpec

namespace Timing

structure Partial where
  acquired : Option (Option (Table TimeSpec))
  processed : Option (Option (Table TimeSpec))
  received : Option (Option TimeSpec)

def readHops (levels : Nat) : Reader (Option (Table TimeSpec)) :=
  Reader.nullable (Reader.table TimeSpec.record.read levels)

def record : Record Partial Timing where
  name := "TimingInfo"
  fields := [
    { name := "acquired", required := false, isSet := (·.acquired.isSome),
      read := fun levels p => do pure { p with acquired := some (← readHops levels) } },
    { name := "processed", required := false, isSet := (·.processed.isSome),
      read := fun levels p => do pure { p with processed := some (← readHops levels) } },
    { name := "received", required := false, isSet := (·.received.isSome),
      read := fun levels p => do
        pure { p with received := some (← Reader.nullable (TimeSpec.record.read levels)) } }]
  empty := ⟨none, none, none⟩
  finish p := .ok ⟨p.acquired.getD none, p.processed.getD none, p.received.getD none⟩

end Timing

namespace Message

structure Partial where
  topic : Option String
  data : Option Json
  timing : Option (Option Timing)

def record : Record Partial Message where
  name := "Message"
  fields := [
    { name := "topic", required := true, isSet := (·.topic.isSome),
      read := fun _ p => do pure { p with topic := some (← Reader.string) } },
    { name := "data", required := false, isSet := (·.data.isSome),
      read := fun levels p => do pure { p with data := some (← Reader.value levels) } },
    { name := "timing", required := false, isSet := (·.timing.isSome),
      read := fun levels p => do
        pure { p with timing := some (← Reader.nullable (Timing.record.read levels)) } }]
  empty := ⟨none, none, none⟩
  finish p :=
    match p.topic with
    | some topic => .ok ⟨topic, p.data.getD .null, p.timing.getD none⟩
    | none => .error (.missingField "topic")

def parse (line : List Char) : Except Json.Error Message :=
  (record.read Json.maxLevels).run line

end Message

end Interaction
