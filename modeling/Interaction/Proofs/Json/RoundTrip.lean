import Interaction.Proofs.Json.Container

/-!
This module contains the proof that JSON values are read from their compact texts, if their numbers
are integers and their containers are not nested too deep.
-/

namespace Interaction

namespace Json

mutual

def depth : Json → Nat
  | .array items => itemsDepth items + 1
  | .object members => membersDepth members + 1
  | _ => 0

def itemsDepth : List Json → Nat
  | [] => 0
  | item :: rest => max (depth item) (itemsDepth rest)

def membersDepth : List (String × Json) → Nat
  | [] => 0
  | (_, value) :: rest => max (depth value) (membersDepth rest)

end

theorem depth_le_itemsDepth {items : List Json} {item : Json} (mem : item ∈ items) :
    item.depth ≤ itemsDepth items := by
  induction items with
  | nil => cases mem
  | cons head rest ih =>
    unfold itemsDepth
    rcases List.mem_cons.1 mem with rfl | mem
    . exact Nat.le_max_left _ _
    . exact Nat.le_trans (ih mem) (Nat.le_max_right _ _)

theorem depth_le_membersDepth {members : List (String × Json)} {member : String × Json}
    (mem : member ∈ members) : member.2.depth ≤ membersDepth members := by
  induction members with
  | nil => cases mem
  | cons head rest ih =>
    unfold membersDepth
    rcases List.mem_cons.1 mem with rfl | mem
    . exact Nat.le_max_left _ _
    . exact Nat.le_trans (ih mem) (Nat.le_max_right _ _)

/--
Whether a value keeps its meaning as a text: its numbers are integers of 64 bits, with or without a
sign. The members of its objects are those of tables, as they are whenever an object was read.
-/
inductive Portable : Json → Prop where
  | null : Portable .null
  | bool (b : Bool) : Portable (.bool b)
  | integer {n : Int} (low : Int64.minValue.toInt ≤ n) (high : n < UInt64.size) :
    Portable (.number (.integer n))
  | string (text : String) : Portable (.string text)
  | array {items : List Json} (each : ∀ item ∈ items, Portable item) : Portable (.array items)
  | object {members : List (String × Json)} (ascending : members.Pairwise (·.1 < ·.1))
    (each : ∀ member ∈ members, Portable member.2) : Portable (.object members)

theorem Portable.opens {j : Json} (h : j.Portable) : Reader.Opens j.chars := by
  cases h with
  | null => exact ⟨'n', _, rfl, by decide, by decide⟩
  | bool b =>
    cases b with
    | true => exact ⟨'t', _, rfl, by decide, by decide⟩
    | false => exact ⟨'f', _, rfl, by decide, by decide⟩
  | @integer n low high =>
    have signed := Reader.signed_toString low high (.inl rfl)
    rw [List.append_nil] at signed
    change Reader.Opens (toString n).toList
    generalize (toString n).toList = text at signed
    cases signed with
    | @digits d t digit =>
      refine ⟨d, t, rfl, Reader.isSpace_of_isDigit digit, ?_⟩
      rintro rfl
      cases digit
    | negative => exact ⟨'-', _, rfl, by decide, by decide⟩
  | string text => exact ⟨'"', _, rfl, by decide, by decide⟩
  | array => exact ⟨'[', _, rfl, by decide, by decide⟩
  | object => exact ⟨'\x7b', _, rfl, by decide, by decide⟩

theorem Portable.recovers {j : Json} (h : j.Portable) {levels : Nat} (le : j.depth ≤ levels) :
    Reader.Recovers (Reader.value levels) j.chars j := by
  -- an item or the value of a member is read with one level less than its container
  induction h generalizing levels with
  | null => exact Reader.recovers_value_null levels
  | bool b => exact Reader.recovers_value_bool levels b
  | integer low high => exact Reader.recovers_value_integer levels low high
  | string text => exact Reader.recovers_value_string levels text
  | @array items each ih =>
    obtain ⟨levels, rfl⟩ := Nat.exists_eq_add_of_le' le
    intro rest _
    have opens := fun item mem => (each item mem).opens
    have recovers := fun item mem =>
      ih item mem (Nat.le_trans (depth_le_itemsDepth mem) (Nat.le_add_left _ levels))
    have found := Reader.finds_items opens recovers rest
    unfold Reader.value chars
    rw [itemChars_eq, List.cons_append, List.append_assoc]
    apply (Reader.finds_token _ _ rfl).bind
    exact (found.map Json.array).advance
  | @object members ascending each ih =>
    obtain ⟨levels, rfl⟩ := Nat.exists_eq_add_of_le' le
    intro rest _
    have recovers := fun member mem =>
      ih member mem (Nat.le_trans (depth_le_membersDepth mem) (Nat.le_add_left _ levels))
    have found := Reader.finds_members recovers rest
    unfold Reader.value chars
    rw [memberChars_eq, List.cons_append, List.append_assoc]
    apply (Reader.finds_token _ _ rfl).bind
    apply Reader.Finds.advance
    apply found.bind
    rw [Reader.sortMembers_of_ascending ascending]
    exact Reader.finds_pure _ rest

end Json

end Interaction
