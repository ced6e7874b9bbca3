import Interaction.Fault
import Interaction.Message.Basic

/-!
This module contains what a message is for: topics that begin with `wrapper.` are addressed to the
supervisor of a node, all others are channels.
-/

namespace Interaction

inductive Control where
  | setConfig (key : String) (value : Json)
  | unknown (command : String)

inductive Incoming where
  | control (control : Control)
  | channel (message : Message)

def Control.topicStart : String := "wrapper."

def Control.setConfigOf (data : Json) : Except Json.Cause Control :=
  match data with
  | .object members =>
    match members.lookup "key", members.lookup "value" with
    | some (.string key), some value => .ok (.setConfig key value)
    | some (.string _), none => .error (.missingField "value")
    | some other, _ => .error (.invalidType (.ofJson other) "a string")
    | none, _ => .error (.missingField "key")
  | .array [] => .error (.invalidLength 0 "struct SetConfig with 2 elements")
  | .array (.string key :: rest) =>
    match rest with
    | [] => .error (.invalidLength 1 "struct SetConfig with 2 elements")
    | [value] => .ok (.setConfig key value)
    | _ => .error (.invalidLength (rest.length + 1) "fewer elements in array")
  | .array (other :: _) => .error (.invalidType (.ofJson other) "a string")
  | other => .error (.invalidType (.ofJson other) "struct SetConfig")

def Control.commandOf? (topic : String) : Option String :=
  (topicStart.toList.isPrefixOf? topic.toList).map String.ofList

def Incoming.classify (m : Message) : Except Fault Incoming :=
  match Control.commandOf? m.topic with
  | none => .ok (.channel m)
  | some command =>
    if command = "set_config" then
      match Control.setConfigOf m.data with
      | .ok instruction => .ok (.control instruction)
      | .error cause => .error (.malformedMessage ⟨cause, none⟩)
    else
      .ok (.control (.unknown command))

end Interaction
