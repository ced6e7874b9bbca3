import Interaction.Message.Basic
import Interaction.Proofs.Json.Strings

/-!
This module contains what trees mean as messages, given how the fields of a record are found in its
tree. Fields of other names may be anything.
-/

namespace Interaction

open Json (Tree)
open Json.Tree (optional? required? nullable?)

variable (fieldsOf? : List String → Tree → Option (List (String × Tree)))

def Timestamp.ofTree? (tree : Tree) : Option Timestamp := do
  let fields ← fieldsOf? ["s", "us"] tree
  let seconds ← required? Tree.int64? "s" fields
  let microseconds ← required? Tree.int64? "us" fields
  return ⟨seconds, microseconds⟩

def TimeSpec.ofTree? (tree : Tree) : Option TimeSpec := do
  let fields ← fieldsOf? ["time", "time2", "frame", "clock"] tree
  let time ← required? (Timestamp.ofTree? fieldsOf?) "time" fields
  let time2 ← optional? (nullable? (Timestamp.ofTree? fieldsOf?)) "time2" fields
  let frame ← required? Tree.text? "frame" fields
  let clock ← required? Tree.text? "clock" fields
  return ⟨time, time2.getD none, frame, clock⟩

def Timing.hopsOfTree? (tree : Tree) : Option (Option (Table TimeSpec)) :=
  nullable? (Tree.table? (TimeSpec.ofTree? fieldsOf?)) tree

def Timing.ofTree? (tree : Tree) : Option Timing := do
  let fields ← fieldsOf? ["acquired", "processed", "received"] tree
  let acquired ← optional? (hopsOfTree? fieldsOf?) "acquired" fields
  let processed ← optional? (hopsOfTree? fieldsOf?) "processed" fields
  let received ← optional? (nullable? (TimeSpec.ofTree? fieldsOf?)) "received" fields
  return ⟨acquired.getD none, processed.getD none, received.getD none⟩

def Message.ofTree? (tree : Tree) : Option Message := do
  let fields ← fieldsOf? ["topic", "data", "timing"] tree
  let topic ← required? Tree.text? "topic" fields
  let data ← optional? (Tree.valueWithin? (Json.maxLevels - 1)) "data" fields
  let timing ← optional? (nullable? (Timing.ofTree? fieldsOf?)) "timing" fields
  return ⟨topic, data.getD .null, timing.getD none⟩

namespace Json.Tree

variable {α : Type} {mean mean' : Tree → Option α} {name : String} {tree : Tree}
variable {fields : List (String × Tree)}

theorem fields?_of_members {names : List String} (h : members? names tree = some fields) :
    fields? names tree = some fields := by
  cases tree with
  | object => exact h
  | _ => cases h

theorem optional?_mono {found : Option α} (le : ∀ tree a, mean tree = some a → mean' tree = some a)
    (h : optional? mean name fields = some found) : optional? mean' name fields = some found := by
  unfold optional? at h ⊢
  split at h
  . exact h
  . obtain ⟨a, meaning, rfl⟩ := Option.map_eq_some_iff.1 h
    rw [le _ a meaning]
    rfl
  . cases h

theorem required?_mono {a : α} (le : ∀ tree a, mean tree = some a → mean' tree = some a)
    (h : required? mean name fields = some a) : required? mean' name fields = some a := by
  unfold required? at h ⊢
  rw [Option.join_eq_some_iff] at h ⊢
  exact optional?_mono le h

theorem nullable?_mono {found : Option α} (le : ∀ tree a, mean tree = some a → mean' tree = some a)
    (h : nullable? mean tree = some found) : nullable? mean' tree = some found := by
  cases tree with
  | null => exact h
  | _ =>
    obtain ⟨a, meaning, rfl⟩ := Option.map_eq_some_iff.1 h
    exact Option.map_eq_some_iff.2 ⟨a, le _ a meaning, rfl⟩

theorem mapM_mono {ξ β : Type} {f g : ξ → Option β} {xs : List ξ} {bs : List β}
    (le : ∀ x b, f x = some b → g x = some b) (h : xs.mapM f = some bs) : xs.mapM g = some bs := by
  induction xs generalizing bs with
  | nil => exact h
  | cons x xs ih =>
    obtain ⟨b, others, first, rest, rfl⟩ := mapM_cons_eq_some.1 h
    exact mapM_cons_eq_some.2 ⟨b, others, le x b first, ih rest, rfl⟩

theorem table?_mono {t : Table α} (le : ∀ tree a, mean tree = some a → mean' tree = some a)
    (h : table? mean tree = some t) : table? mean' tree = some t := by
  cases tree with
  | object members =>
    obtain ⟨entries, meanings, rfl⟩ := Option.map_eq_some_iff.1 h
    refine Option.map_eq_some_iff.2 ⟨entries, mapM_mono ?_ meanings, rfl⟩
    intro entry b found
    obtain ⟨key, text, found⟩ := Option.bind_eq_some_iff.1 found
    obtain ⟨a, meaning, found⟩ := Option.bind_eq_some_iff.1 found
    exact Option.bind_eq_some_iff.2 ⟨key, text,
      Option.bind_eq_some_iff.2 ⟨a, le _ a meaning, found⟩⟩
  | _ => cases h

end Json.Tree

/-! What is written as objects only means the same where arrays may stand for them. -/

section Objects

open Json.Tree (fields? members? fields?_of_members optional?_mono required?_mono nullable?_mono)

variable {tree : Tree}

theorem Timestamp.ofTree?_of_members {t : Timestamp} (h : ofTree? members? tree = some t) :
    ofTree? fields? tree = some t := by
  obtain ⟨fields, isFields, h⟩ := Option.bind_eq_some_iff.1 h
  exact Option.bind_eq_some_iff.2 ⟨fields, fields?_of_members isFields, h⟩

theorem TimeSpec.ofTree?_of_members {t : TimeSpec} (h : ofTree? members? tree = some t) :
    ofTree? fields? tree = some t := by
  have stamp : ∀ tree t, Timestamp.ofTree? members? tree = some t →
      Timestamp.ofTree? fields? tree = some t := fun _ _ => Timestamp.ofTree?_of_members
  obtain ⟨fields, isFields, h⟩ := Option.bind_eq_some_iff.1 h
  obtain ⟨time, first, h⟩ := Option.bind_eq_some_iff.1 h
  obtain ⟨time2, second, h⟩ := Option.bind_eq_some_iff.1 h
  exact Option.bind_eq_some_iff.2 ⟨fields, fields?_of_members isFields,
    Option.bind_eq_some_iff.2 ⟨time, required?_mono stamp first,
      Option.bind_eq_some_iff.2 ⟨time2,
        optional?_mono (fun _ _ => nullable?_mono stamp) second, h⟩⟩⟩

theorem Timing.hopsOfTree?_of_members {hops : Option (Table TimeSpec)}
    (h : hopsOfTree? members? tree = some hops) : hopsOfTree? fields? tree = some hops :=
  nullable?_mono (fun _ _ => Json.Tree.table?_mono fun _ _ => TimeSpec.ofTree?_of_members) h

theorem Timing.ofTree?_of_members {t : Timing} (h : ofTree? members? tree = some t) :
    ofTree? fields? tree = some t := by
  obtain ⟨fields, isFields, h⟩ := Option.bind_eq_some_iff.1 h
  obtain ⟨acquired, first, h⟩ := Option.bind_eq_some_iff.1 h
  obtain ⟨processed, second, h⟩ := Option.bind_eq_some_iff.1 h
  obtain ⟨received, third, h⟩ := Option.bind_eq_some_iff.1 h
  have received' : optional? (nullable? (TimeSpec.ofTree? fields?)) "received" fields =
      some received :=
    optional?_mono (fun _ _ => nullable?_mono fun _ _ => TimeSpec.ofTree?_of_members) third
  exact Option.bind_eq_some_iff.2 ⟨fields, fields?_of_members isFields,
    Option.bind_eq_some_iff.2 ⟨acquired, optional?_mono (fun _ _ => hopsOfTree?_of_members) first,
      Option.bind_eq_some_iff.2 ⟨processed,
        optional?_mono (fun _ _ => hopsOfTree?_of_members) second,
        Option.bind_eq_some_iff.2 ⟨received, received', h⟩⟩⟩⟩

theorem Message.ofTree?_of_members {m : Message} (h : ofTree? members? tree = some m) :
    ofTree? fields? tree = some m := by
  obtain ⟨fields, isFields, h⟩ := Option.bind_eq_some_iff.1 h
  obtain ⟨topic, first, h⟩ := Option.bind_eq_some_iff.1 h
  obtain ⟨data, second, h⟩ := Option.bind_eq_some_iff.1 h
  obtain ⟨timing, third, h⟩ := Option.bind_eq_some_iff.1 h
  have timing' : optional? (nullable? (Timing.ofTree? fields?)) "timing" fields = some timing :=
    optional?_mono (fun _ _ => nullable?_mono fun _ _ => Timing.ofTree?_of_members) third
  exact Option.bind_eq_some_iff.2 ⟨fields, fields?_of_members isFields,
    Option.bind_eq_some_iff.2 ⟨topic, first,
      Option.bind_eq_some_iff.2 ⟨data, second,
        Option.bind_eq_some_iff.2 ⟨timing, timing', h⟩⟩⟩⟩

end Objects

end Interaction
