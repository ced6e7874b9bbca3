import Interaction.Json.Basic

/-!
This module contains the messages that nodes exchange, and their lines. A line holds one JSON object
with a topic, data, and possibly the times of the message.
-/

namespace Interaction

structure Timestamp where
  seconds : Int
  microseconds : Int
  deriving DecidableEq, Repr

structure TimeSpec where
  time : Timestamp
  time2 : Option Timestamp
  frame : String
  clock : String
  deriving DecidableEq, Repr

structure Timing where
  acquired : Option (Table TimeSpec)
  processed : Option (Table TimeSpec)
  received : Option TimeSpec
  deriving DecidableEq

structure Message where
  topic : String
  data : Json
  timing : Option Timing

namespace Timestamp

def toJson (t : Timestamp) : Json :=
  .object [("s", .ofInt t.seconds), ("us", .ofInt t.microseconds)]

end Timestamp

def Json.optionalMember {α : Type} (key : String) (toJson : α → Json) (value : Option α) :
    List (String × Json) :=
  match value with
  | none => []
  | some a => [(key, toJson a)]

namespace TimeSpec

def toJson (t : TimeSpec) : Json :=
  .object <| ("time", t.time.toJson) ::
    (Json.optionalMember "time2" Timestamp.toJson t.time2 ++
      [("frame", .string t.frame), ("clock", .string t.clock)])

end TimeSpec

namespace Timing

def hopsToJson (hops : Table TimeSpec) : Json :=
  .object (hops.entries.map fun (hop, time) => (hop, time.toJson))

def toJson (t : Timing) : Json :=
  .object <| Json.optionalMember "acquired" hopsToJson t.acquired ++
    Json.optionalMember "processed" hopsToJson t.processed ++
    Json.optionalMember "received" TimeSpec.toJson t.received

end Timing

namespace Message

def new (topic : String) (data : Json) : Message := ⟨topic, data, none⟩

def toJson (m : Message) : Json :=
  .object <| ("topic", .string m.topic) :: ("data", m.data) ::
    Json.optionalMember "timing" Timing.toJson m.timing

def line (m : Message) : String := m.toJson.render ++ "\n"

end Message

end Interaction
