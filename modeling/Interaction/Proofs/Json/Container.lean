import Interaction.Proofs.Json.Scalar
import Interaction.Proofs.Table

/-!
This module contains the proof that arrays and objects are read from their texts, if their items and
the values of their members are.
-/

namespace Interaction

namespace Json

variable {α β : Type} {t rest : List Char}

def listed (first : Bool) (text : List Char) : List Char :=
  if first then text else ',' :: text

@[simp]
theorem listed_true (text : List Char) : listed true text = text := rfl

@[simp]
theorem listed_false (text : List Char) : listed false text = ',' :: text := rfl

def joined (first : Bool) : List (List Char) → List Char
  | [] => []
  | text :: rest => listed first text ++ joined false rest

theorem itemChars_eq (items : List Json) : itemChars items = joined true (items.map chars) := by
  induction items with
  | nil => rfl
  | cons item items ih =>
    cases items with
    | nil => exact (List.append_nil _).symm
    | cons second rest =>
      rw [itemChars, ih]
      . rfl
      . simp

def memberText (text : α → List Char) (member : String × α) : List Char :=
  stringText member.1 ++ ':' :: text member.2

theorem memberChars_eq (members : List (String × Json)) :
    memberChars members = joined true (members.map (memberText chars)) := by
  induction members with
  | nil => rfl
  | cons member members ih =>
    cases members with
    | nil => exact (List.append_nil _).symm
    | cons second rest =>
      rw [memberChars, ih]
      . simp [joined, memberText]
      . simp

namespace Reader

theorem delimited_joined {close : Char} (isClose : close = ']' ∨ close = '\x7d')
    (texts : List (List Char)) (rest : List Char) :
    Delimited (joined false texts ++ close :: rest) := by
  cases texts with
  | nil => exact .inr ⟨close, rest, rfl, .inr isClose⟩
  | cons text texts => exact .inr ⟨',', _, rfl, .inl rfl⟩

def Opens (text : List Char) : Prop :=
  ∃ x t, text = x :: t ∧ isSpace x = false ∧ x ≠ ']'

theorem Opens.length_pos (h : Opens t) : 0 < t.length := by
  obtain ⟨x, t, rfl, _⟩ := h
  exact Nat.succ_pos _

theorem finds_nextItem {text : List Char} (opens : Opens text) (first : Bool) (rest : List Char) :
    Finds (nextItem first) (listed first text ++ rest) true (text ++ rest) := by
  obtain ⟨x, t, rfl, flush, ne⟩ := opens
  unfold nextItem
  cases first with
  | true =>
    rw [listed_true]
    apply (finds_token _ _ flush).bind
    simp only [if_true]
    exact finds_pure true _
  | false =>
    rw [listed_false]
    apply (finds_token _ _ rfl).bind
    apply Finds.advance
    apply (finds_token _ _ flush).bind
    simp only
    exact finds_pure true _

theorem finds_nextItem_end (first : Bool) (rest : List Char) :
    Finds (nextItem first) (']' :: rest) false (']' :: rest) := by
  unfold nextItem
  exact (finds_token _ _ rfl).bind (finds_pure false _)

theorem length_lt_listed (first : Bool) {text : List Char} (pos : 0 < text.length)
    (rest : List Char) : rest.length < (listed first text ++ rest).length := by
  rw [List.length_append]
  cases first with
  | true =>
    rw [listed_true]
    omega
  | false =>
    rw [listed_false, List.length_cons]
    omega

theorem finds_items {item : Reader α} {text : α → List Char} {as : List α}
    (opens : ∀ a ∈ as, Opens (text a)) (recovers : ∀ a ∈ as, Recovers item (text a) a)
    (rest : List Char) :
    Finds (items item) (joined true (as.map text) ++ ']' :: rest) as rest := by
  suffices all : ∀ first, Collected
      (fun first => do if ← nextItem first then some <$> item else pure none) first
      (joined first (as.map text) ++ ']' :: rest) as (']' :: rest) from
    (all true).finds.bind ((finds_pure as rest).advance)
  intro first
  induction as generalizing first with
  | nil => exact .stop ((finds_nextItem_end first rest).bind (finds_pure none _))
  | cons a as ih =>
    rw [List.forall_mem_cons] at opens recovers
    rw [List.map_cons, joined, List.append_assoc]
    have found := recovers.1 _ (delimited_joined (.inl rfl) (as.map text) rest)
    apply Collected.item _ (length_lt_listed first opens.1.length_pos _)
      (ih opens.2 recovers.2 false)
    exact (finds_nextItem opens.1 first _).bind (found.map some)

theorem finds_nextKey (key : String) (first : Bool) (rest : List Char) :
    Finds (nextKey first) (listed first (stringText key) ++ rest) (some key) rest := by
  have text : stringText key ++ rest =
      '"' :: (key.toList.flatMap escapeChar ++ '"' :: rest) := by
    simp [stringText]
  have found := (finds_stringRest key rest).map some
  unfold nextKey
  cases first with
  | true =>
    rw [listed_true, text]
    exact (finds_token _ _ rfl).bind found.advance
  | false =>
    rw [listed_false, List.cons_append, text]
    apply (finds_token _ _ rfl).bind
    apply Finds.advance
    exact (finds_token _ _ rfl).bind found.advance

theorem finds_nextKey_end (first : Bool) (rest : List Char) :
    Finds (nextKey first) ('\x7d' :: rest) none ('\x7d' :: rest) := by
  unfold nextKey
  exact (finds_token _ _ rfl).bind (finds_pure none _)

theorem finds_colon (rest : List Char) : Finds colon (':' :: rest) () rest := by
  unfold colon
  exact (finds_token _ _ rfl).bind (finds_advance ':' rest)

theorem joined_member (text : α → List Char) (first : Bool) (m : String × α)
    (texts : List (List Char)) (rest : List Char) :
    joined first (memberText text m :: texts) ++ rest =
      listed first (stringText m.1) ++ ':' :: (text m.2 ++ (joined false texts ++ rest)) := by
  cases first <;> simp [joined, memberText]

theorem length_lt_joined_member (text : α → List Char) (first : Bool) (m : String × α)
    (texts : List (List Char)) (rest : List Char) :
    (joined false texts ++ rest).length <
      (joined first (memberText text m :: texts) ++ rest).length := by
  rw [joined_member]
  simp only [List.length_append, List.length_cons]
  omega

theorem finds_members {value : Reader α} {text : α → List Char} {ms : List (String × α)}
    (recovers : ∀ m ∈ ms, Recovers value (text m.2) m.2) (rest : List Char) :
    Finds (members value) (joined true (ms.map (memberText text)) ++ '\x7d' :: rest) ms rest := by
  have passed : Finds (do advance; pure ms) ('\x7d' :: rest) ms rest :=
    (finds_pure ms rest).advance
  unfold members
  refine Finds.bind (Collected.finds ?_) passed
  clear passed
  generalize true = first
  induction ms generalizing first with
  | nil => exact .stop ((finds_nextKey_end first rest).bind (finds_pure none _))
  | cons m ms ih =>
    rw [List.forall_mem_cons] at recovers
    have found := recovers.1 _ (delimited_joined (.inr rfl) (ms.map (memberText text)) rest)
    apply Collected.item _ (length_lt_joined_member text first m _ _) (ih recovers.2 false)
    rw [joined_member]
    apply (finds_nextKey m.1 first _).bind
    apply (finds_colon _).bind
    exact found.bind (finds_pure _ _)

theorem sortMembers_of_ascending {members : List (String × α)}
    (ascending : members.Pairwise (·.1 < ·.1)) : sortMembers members = members := by
  have sorted : sortMembers members = (Table.ofList members).entries :=
    (Table.entries_ofList members).symm
  rw [sorted, Table.ofList_entries ⟨members, ascending⟩]

theorem recovers_table {value : Nat → Reader α} {levels : Nat} {toJson : α → Json} {hops : Table α}
    (recovers : ∀ entry ∈ hops.entries,
      Recovers (value levels) (toJson entry.2).chars entry.2) :
    Recovers (table value (levels + 1))
      (chars (.object (hops.entries.map fun (key, a) => (key, toJson a)))) hops := by
  intro rest _
  have texts : (hops.entries.map fun (key, a) => (key, toJson a)).map (memberText chars) =
      hops.entries.map (memberText fun a => (toJson a).chars) := List.map_map
  unfold table chars
  rw [memberChars_eq, texts, List.cons_append, List.append_assoc]
  apply (finds_token _ _ rfl).bind
  apply Finds.advance
  apply (finds_members recovers rest).bind
  rw [Table.ofList_entries]
  exact finds_pure hops rest

end Reader

end Json

end Interaction
