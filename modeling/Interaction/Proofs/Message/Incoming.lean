import Interaction.Message.Incoming
import Interaction.Message.Lines
import Interaction.Proofs.Text.Blank
import Mathlib.Data.List.Basic

/-!
This module contains what a line of a stream is for: what is read on a blank line, and which
messages are for the supervisor.
-/

namespace Interaction

namespace Incoming

variable {m m' : Message} {command key : String} {members : List (String × Json)} {value : Json}

theorem commandOf?_topicStart (command : String) :
    Control.commandOf? (Control.topicStart ++ command) = some command := by
  unfold Control.commandOf?
  rw [String.toList_append, List.isPrefixOf?_eq_some_iff_append_eq.2 rfl]
  simp

theorem commandOf?_eq_some_iff {topic : String} :
    Control.commandOf? topic = some command ↔ topic = Control.topicStart ++ command := by
  constructor
  . intro found
    obtain ⟨rest, split, rfl⟩ := Option.map_eq_some_iff.1 found
    rw [List.isPrefixOf?_eq_some_iff_append_eq] at split
    rw [← String.toList_inj, String.toList_append, String.toList_ofList, split]
  . rintro rfl
    exact commandOf?_topicStart command

theorem commandOf?_eq_none_iff {topic : String} :
    Control.commandOf? topic = none ↔ ∀ command, topic ≠ Control.topicStart ++ command := by
  simp only [Option.eq_none_iff_forall_ne_some, ne_eq, commandOf?_eq_some_iff]

theorem classify_ne_channel (found : Control.commandOf? m.topic = some command) :
    classify m ≠ .ok (.channel m') := by
  unfold classify
  simp only [found]
  split
  . split <;> simp
  . simp

theorem classify_congr (found : Control.commandOf? m.topic = some command)
    (topic : m'.topic = m.topic) (data : m'.data = m.data) : classify m' = classify m := by
  unfold classify
  rw [topic, data]
  simp only [found]

theorem classify_of_plain (plain : Control.commandOf? m.topic = none) :
    classify m = .ok (.channel m) := by
  unfold classify
  rw [plain]

theorem classify_of_setConfig (topic : m.topic = Control.topicStart ++ "set_config")
    (data : m.data = .object members) (hasKey : members.lookup "key" = some (.string key))
    (hasValue : members.lookup "value" = some value) :
    classify m = .ok (.control (.setConfig key value)) := by
  have read : Control.setConfigOf m.data = .ok (.setConfig key value) := by
    rw [data]
    simp only [Control.setConfigOf, hasKey, hasValue]
  unfold classify
  simp only [topic, commandOf?_topicStart, if_true, read]

theorem classify_of_unknown (topic : m.topic = Control.topicStart ++ command)
    (other : command ≠ "set_config") : classify m = .ok (.control (.unknown command)) := by
  unfold classify
  simp only [topic, commandOf?_topicStart, if_neg other]

theorem category_of_setConfigOf {data : Json} {cause : Json.Cause}
    (h : Control.setConfigOf data = .error cause) : cause.category = .data := by
  unfold Control.setConfigOf at h
  repeat' split at h
  all_goals
    cases h
    try rfl

theorem eq_malformedMessage_of_classify {fault : Fault} (h : classify m = .error fault) :
    ∃ cause, fault = .malformedMessage ⟨cause, none⟩ ∧ cause.category = .data := by
  unfold classify at h
  split at h
  . cases h
  . split at h
    . split at h
      . cases h
      . next cause failed =>
        cases h
        exact ⟨cause, rfl, category_of_setConfigOf failed⟩
    . cases h

end Incoming

theorem Lines.parse_of_blank {line : List UInt8} {text : String}
    (decoded : Text.decode? line = some text) (white : ∀ c ∈ text.toList, Text.isBlank c = true) :
    Lines.parse line = none := by
  unfold Lines.parse
  simp [decoded, Text.trim_of_blank white]

end Interaction
