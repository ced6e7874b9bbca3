import Interaction.Proofs.Json.Ignored
import Interaction.Proofs.Json.Record
import Interaction.Proofs.Json.Scalars
import Mathlib.Data.List.Pairwise

/-!
This module contains what a record means that is written as a tree, field by field, and the proof
that the reader of records finds this, however the members of an object are ordered.
-/

namespace Interaction

namespace Json

namespace Tree

variable {α : Type} {mean : Tree → Option α} {name : String} {fields : List (String × Tree)}
variable {tree : Tree}

theorem optional?_nil : optional? mean name [] = some none := rfl

theorem optional?_of_ne {key : String} (ne : key ≠ name) :
    optional? mean name ((key, tree) :: fields) = optional? mean name fields := by
  unfold optional?
  rw [List.filter_cons_of_neg (by simpa using ne)]

end Tree

open Json.Tree (optional? required?)

/-- A field of a record, what its value means, and where a state holds it. -/
structure Slot (σ : Type) where
  content : Type
  field : Field σ
  mean : Tree → Option content
  get : σ → Option content
  put : content → σ → σ

namespace Slot

variable {σ : Type} {slots : List (Slot σ)} {slot : Slot σ} {s s' s₁ : σ}
variable {fields : List (String × Tree)} {key : String} {tree : Tree}

def name (slot : Slot σ) : String := slot.field.name

/-- Whether slots hold the whole state, each its own part of it. -/
structure Separate (slots : List (Slot σ)) : Prop where
  nodup : (slots.map name).Nodup
  isSet : ∀ slot ∈ slots, ∀ s, slot.field.isSet s = (slot.get s).isSome
  get_put : ∀ slot ∈ slots, ∀ v s, slot.get (slot.put v s) = some v
  get_put_of_ne : ∀ slot ∈ slots, ∀ other ∈ slots, other.name ≠ slot.name →
    ∀ v s, other.get (slot.put v s) = other.get s
  ext : ∀ {s s'}, (∀ slot ∈ slots, slot.get s = slot.get s') → s = s'

@[mk_iff]
structure Sound (slot : Slot σ) : Prop where
  isSet : ∀ s, slot.field.isSet s = (slot.get s).isSome
  get_put : ∀ v s, slot.get (slot.put v s) = some v

@[mk_iff]
structure Independent (slot other : Slot σ) : Prop where
  name_ne : slot.name ≠ other.name
  get_put : ∀ v s, slot.get (other.put v s) = slot.get s
  get_put' : ∀ v s, other.get (slot.put v s) = other.get s

theorem Separate.of_pairwise (sound : ∀ slot ∈ slots, slot.Sound)
    (independent : slots.Pairwise Independent)
    (ext : ∀ {s s'}, (∀ slot ∈ slots, slot.get s = slot.get s') → s = s') : Separate slots where
  nodup := List.pairwise_map.2 (independent.imp fun h => h.name_ne)
  isSet slot mem := (sound slot mem).isSet
  get_put slot mem := (sound slot mem).get_put
  get_put_of_ne := by
    have : Std.Symm (Independent : Slot σ → Slot σ → Prop) :=
      ⟨fun _ _ h => ⟨h.name_ne.symm, h.get_put', h.get_put⟩⟩
    intro slot mem other mem' ne
    have distinct : slot ≠ other := by
      rintro rfl
      exact ne rfl
    exact (independent.forall mem mem' distinct).get_put'
  ext := ext

/-- Whether fields lead from a state to another, each of them read into a slot that is not set. -/
inductive Run (slots : List (Slot σ)) : σ → List (String × Tree) → σ → Prop where
  | nil {s : σ} : Run slots s [] s
  | other {s s' : σ} {key : String} {tree : Tree} {rest : List (String × Tree)}
    (unknown : slots.find? (·.name == key) = none) (more : Run slots s rest s') :
    Run slots s ((key, tree) :: rest) s'
  | field {s s' : σ} {slot : Slot σ} {key : String} {tree : Tree} {v : slot.content}
    {rest : List (String × Tree)} (known : slots.find? (·.name == key) = some slot)
    (unset : slot.get s = none) (meaning : slot.mean tree = some v)
    (more : Run slots (slot.put v s) rest s') : Run slots s ((key, tree) :: rest) s'

def Holds (slot : Slot σ) (fields : List (String × Tree)) :
    Option slot.content → Option slot.content → Prop
  | none, held => optional? slot.mean slot.name fields = some held
  | some v, held => fields.filter (·.1 == slot.name) = [] ∧ held = some v

theorem holds_of_ne (slot : Slot σ) {before held : Option slot.content} (ne : key ≠ slot.name) :
    slot.Holds ((key, tree) :: fields) before held ↔ slot.Holds fields before held := by
  cases before with
  | none =>
    unfold Holds
    rw [Tree.optional?_of_ne ne]
  | some v =>
    unfold Holds
    rw [List.filter_cons_of_neg (by simpa using ne)]

theorem holds_field (slot : Slot σ) {held : Option slot.content} :
    slot.Holds ((slot.name, tree) :: fields) none held ↔
      ∃ v, slot.mean tree = some v ∧ slot.Holds fields (some v) held := by
  unfold Holds optional?
  rw [List.filter_cons_of_pos (by simp)]
  cases fields.filter (·.1 == slot.name) with
  | nil => simp [eq_comm]
  | cons => simp

theorem find?_eq_some (h : Separate slots) (mem : slot ∈ slots) :
    slots.find? (·.name == slot.name) = some slot := by
  cases found : slots.find? (·.name == slot.name) with
  | none =>
    have ne := List.find?_eq_none.1 found slot mem
    simp at ne
  | some other =>
    have same : other.name = slot.name := by simpa using List.find?_some found
    rw [List.inj_on_of_nodup_map h.nodup (List.mem_of_find?_eq_some found) mem same]

theorem holds_nil (slot : Slot σ) {before held : Option slot.content} :
    slot.Holds [] before held ↔ held = before := by
  cases before with
  | none => simp [Holds, Tree.optional?_nil, eq_comm]
  | some v => simp [Holds]

theorem run_other_iff (unknown : slots.find? (·.name == key) = none) :
    Run slots s ((key, tree) :: fields) s' ↔ Run slots s fields s' := by
  constructor
  . intro run
    cases run with
    | other _ more => exact more
    | field known => rw [unknown] at known; cases known
  . exact .other unknown

theorem run_field_iff (known : slots.find? (·.name == key) = some slot) :
    Run slots s ((key, tree) :: fields) s' ↔
      slot.get s = none ∧ ∃ v, slot.mean tree = some v ∧ Run slots (slot.put v s) fields s' := by
  constructor
  . intro run
    cases run with
    | other unknown => rw [known] at unknown; cases unknown
    | field known' unset meaning more =>
      cases known.symm.trans known'
      exact ⟨unset, _, meaning, more⟩
  . rintro ⟨unset, v, meaning, more⟩
    exact .field known unset meaning more

theorem holds_cons_iff (h : Separate slots) (mem : slot ∈ slots) {other : Slot σ}
    (mem' : other ∈ slots) (unset : slot.get s = none) {v : slot.content}
    (meaning : slot.mean tree = some v) {held : Option other.content} :
    other.Holds ((slot.name, tree) :: fields) (other.get s) held ↔
      other.Holds fields (other.get (slot.put v s)) held := by
  by_cases same : other.name = slot.name
  . obtain rfl := List.inj_on_of_nodup_map h.nodup mem' mem same
    rw [unset, holds_field, h.get_put other mem]
    constructor
    . rintro ⟨w, meaning', holds⟩
      cases meaning.symm.trans meaning'
      exact holds
    . exact fun holds => ⟨v, meaning, holds⟩
  . rw [h.get_put_of_ne slot mem other mem' same]
    exact other.holds_of_ne (Ne.symm same)

theorem run_iff (h : Separate slots) :
    Run slots s fields s' ↔ ∀ slot ∈ slots, slot.Holds fields (slot.get s) (slot.get s') := by
  induction fields generalizing s with
  | nil =>
    simp only [holds_nil]
    constructor
    . rintro ⟨⟩ slot _
      rfl
    . intro same
      cases h.ext same
      exact .nil
  | cons member fields ih =>
    obtain ⟨key, tree⟩ := member
    cases known : slots.find? (·.name == key) with
    | none =>
      have ne : ∀ slot ∈ slots, key ≠ slot.name := by
        intro slot mem same
        exact List.find?_eq_none.1 known slot mem (beq_iff_eq.2 same.symm)
      rw [run_other_iff known, ih]
      exact forall₂_congr fun slot mem => (slot.holds_of_ne (ne slot mem)).symm
    | some slot =>
      have mem := List.mem_of_find?_eq_some known
      obtain rfl : slot.name = key := by simpa using List.find?_some known
      rw [run_field_iff known]
      constructor
      . rintro ⟨unset, v, meaning, more⟩ other mem'
        exact (holds_cons_iff h mem mem' unset meaning).2 (ih.1 more other mem')
      . intro all
        have here := all slot mem
        cases before : slot.get s with
        | some v =>
          rw [before] at here
          cases List.filter_eq_nil_iff.1 here.1 _ List.mem_cons_self (by simp)
        | none =>
          rw [before, holds_field] at here
          obtain ⟨v, meaning, _⟩ := here
          refine ⟨rfl, v, meaning, ih.2 fun other mem' => ?_⟩
          exact (holds_cons_iff h mem mem' before meaning).1 (all other mem')

end Slot

namespace Record

open Slot (Run Separate)

variable {σ α : Type} {r : Record σ α} {levels n : Nat} {slots : List (Slot σ)} {s s' s₁ : σ}
variable {first : Bool} {c c' : Cursor} {a : α}

structure Described (r : Record σ α) (levels : Nat) (slots : List (Slot σ)) : Prop where
  separate : Separate slots
  fields : r.fields = slots.map Slot.field
  reads : ∀ slot ∈ slots, ∀ s, Reader.Reads (slot.field.read levels s) fun tree =>
    (slot.mean tree).map fun v => slot.put v s
  unset : ∀ slot ∈ slots, slot.get r.empty = none
  required : ∀ {s a}, r.finish s = .ok a → ∀ slot ∈ slots, slot.field.required = true →
    slot.get s ≠ none

theorem Described.find? (h : r.Described levels slots) (key : String) :
    r.fields.find? (·.name == key) = (slots.find? (·.name == key)).map Slot.field := by
  rw [h.fields, List.find?_map]
  rfl

inductive Stepped (slots : List (Slot σ)) (first : Bool) (s : σ) (t rest : List Char) :
    Except Cause σ × Bool → Prop where
  | last {gap : List Char} (isGap : Gap gap) (eq : t = gap ++ rest)
    (head : rest.head? = some '\x7d') : Stepped slots first s t rest (.ok s, false)
  | member {s₁ : σ} {lead text : List Char} {key : List Piece} {tree : Tree} {name : String}
    (isLead : Lead first lead) (entry : Entry Tree.Spells (key, tree) text)
    (eq : t = lead ++ (text ++ rest)) (named : Piece.string? key = some name)
    (run : ∀ {fields s'}, Run slots s₁ fields s' → Run slots s ((name, tree) :: fields) s') :
    Stepped slots first s t rest (.ok s₁, true)
  | refused {cause : Cause} : Stepped slots first s t rest (.error cause, false)

theorem Described.stepped (h : r.Described levels slots) {state : Except Cause σ × Bool}
    (found : r.readMember levels first (.ok s) c = .ok (state, c')) :
    Stepped slots first s c.rest c'.rest state := by
  unfold readMember at found
  obtain ⟨key, c₁, next, found⟩ := Reader.bind_eq_ok.1 found
  cases key with
  | none =>
    obtain ⟨rfl, rfl⟩ := Reader.pure_eq_ok.1 found
    obtain ⟨gap, isGap, eq, head⟩ := Reader.end_of_nextKey next
    exact .last isGap eq head
  | some key =>
    obtain ⟨lead, pieces, isLead, named, eq⟩ := Reader.lead_of_nextKey next
    simp only [h.find?] at found
    cases known : slots.find? (·.name == key) with
    | none =>
      simp only [known, Option.map_none] at found
      obtain ⟨_, c₂, passed, found⟩ := Reader.bind_eq_ok.1 found
      obtain ⟨_, c₃, ignored, done⟩ := Reader.bind_eq_ok.1 found
      obtain ⟨rfl, rfl⟩ := Reader.pure_eq_ok.1 done
      obtain ⟨behind, tree, _, eq', entry⟩ :=
        (Reader.reads_ignored _).sound_member (Nat.le_refl _) passed ignored
      exact .member isLead (entry pieces) (by rw [eq, eq', List.append_assoc]) named (.other known)
    | some slot =>
      have mem := List.mem_of_find?_eq_some known
      simp only [known, Option.map_some, h.separate.isSet slot mem] at found
      split at found
      . obtain ⟨rfl, rfl⟩ := Reader.pure_eq_ok.1 found
        exact .refused
      . next notSet =>
        obtain ⟨_, c₂, passed, found⟩ := Reader.bind_eq_ok.1 found
        obtain ⟨s₁, c₃, read, done⟩ := Reader.bind_eq_ok.1 found
        obtain ⟨rfl, rfl⟩ := Reader.pure_eq_ok.1 done
        obtain ⟨behind, tree, meaning, eq', entry⟩ :=
          (h.reads slot mem s _).sound_member (Nat.le_refl _) passed read
        obtain ⟨v, meaning', rfl⟩ := Option.map_eq_some_iff.1 meaning
        have unset : slot.get s = none := by simpa using notSet
        exact .member isLead (entry pieces) (by rw [eq, eq', List.append_assoc]) named
          (.field known unset meaning')

theorem length_lt_entry {member : List Piece × Tree} {text : List Char}
    (entry : Entry Tree.Spells member text) (lead rest : List Char) :
    rest.length < (lead ++ (text ++ rest)).length := by
  cases entry with
  | mk =>
    unfold Piece.quoted
    simp only [List.length_append, List.length_cons]
    omega

theorem mapM_member?_cons {key : List Piece} {tree : Tree} {name : String}
    {members : List (List Piece × Tree)} {fields : List (String × Tree)}
    (named : Piece.string? key = some name) (h : members.mapM (Tree.member? some) = some fields) :
    ((key, tree) :: members).mapM (Tree.member? some) = some ((name, tree) :: fields) := by
  rw [mapM_cons_eq_some]
  refine ⟨(name, tree), fields, ?_, h, rfl⟩
  rw [Tree.member?, named]
  rfl

theorem Described.sound_iterate (h : r.Described levels slots)
    (found : Reader.iterate (r.readMember levels) first (.ok s) c = .ok (.ok s', c')) :
    ∃ members fields row, Row (Entry Tree.Spells) first members row ∧ c.rest = row ++ c'.rest ∧
      c'.rest.head? = some '\x7d' ∧ members.mapM (Tree.member? some) = some fields ∧
      Run slots s fields s' := by
  induction size : c.left using Nat.strongRecOn generalizing c first s with
  | _ size' ih =>
    rw [Reader.iterate] at found
    split at found
    . cases found
    next state more c₁ step =>
    generalize pair : (state, more) = stepped at step
    have stepped := h.stepped step
    cases stepped with
    | last isGap eq head =>
      cases pair
      simp only [Bool.false_eq_true, false_and, if_false] at found
      cases found
      exact ⟨[], [], _, .nil isGap, eq, head, rfl, .nil⟩
    | @member s₁ lead text key tree name isLead entry eq named run =>
      cases pair
      have less : c₁.left < c.left := by
        rw [Cursor.left_lt_iff, eq]
        exact length_lt_entry entry lead c₁.rest
      simp only [less, and_self, if_true] at found
      obtain ⟨members, fields, row, isRow, eq', head, meanings, others⟩ :=
        ih _ (size ▸ less) found rfl
      refine ⟨(key, tree) :: members, _, _, .cons isLead entry isRow, ?_, head,
        mapM_member?_cons named meanings, run others⟩
      rw [eq, eq']
      simp only [List.append_assoc]
    | refused =>
      cases pair
      simp only [Bool.false_eq_true, false_and, if_false] at found
      cases found

theorem Described.finds_member (h : r.Described levels slots) {lead text rest : List Char}
    {key : List Piece} {tree : Tree} {name : String} {fields : List (String × Tree)}
    (isLead : Lead first lead) (entry : Entry Tree.Spells (key, tree) text)
    (named : Piece.string? key = some name) (apart : Apart rest)
    (run : Run slots s ((name, tree) :: fields) s') :
    ∃ s₁, Reader.Finds (r.readMember levels first (.ok s)) (lead ++ (text ++ rest)) (.ok s₁, true)
      rest ∧ Run slots s₁ fields s' := by
  cases entry with
  | @mk _ _ gap gap' text isGap isGap' spells =>
    simp only [List.append_assoc, List.cons_append]
    have next := Reader.finds_nextKey_lead isLead named (gap ++ ':' :: (gap' ++ (text ++ rest)))
    have passed := Reader.finds_colon_gap isGap (gap' ++ (text ++ rest))
    unfold readMember
    cases run with
    | other unknown more =>
      have value := (Reader.reads_ignored _).complete isGap' spells rfl apart (Nat.le_refl _)
      refine ⟨s, next.bind ?_, more⟩
      simp only [h.find?, unknown, Option.map_none]
      exact passed.bind (value.bind (Reader.finds_pure _ rest))
    | @field _ _ slot _ _ v _ known unset meaning more =>
      have mem := List.mem_of_find?_eq_some known
      have value := (h.reads slot mem s _).complete isGap' spells
        (congrArg (Option.map fun v => slot.put v s) meaning) apart (Nat.le_refl _)
      refine ⟨slot.put v s, next.bind ?_, more⟩
      simp only [h.find?, known, Option.map_some, h.separate.isSet slot mem, unset,
        Option.isSome_none, Bool.false_eq_true, if_false]
      exact passed.bind (value.bind (Reader.finds_pure _ rest))

theorem Described.complete_iterate (h : r.Described levels slots)
    {members : List (List Piece × Tree)} {fields : List (String × Tree)} {row u : List Char}
    (isRow : Row (Entry Tree.Spells) first members row)
    (meanings : members.mapM (Tree.member? some) = some fields) (run : Run slots s fields s')
    (head : u.head? = some '\x7d') :
    Reader.Finds (Reader.iterated (r.readMember levels) first (.ok s)) (row ++ u) (.ok s') u := by
  have apart : Apart u := (show Reader.Before '\x7d' u u from ⟨rfl, head⟩).apart (.inr rfl)
  induction isRow generalizing fields s with
  | nil isGap =>
    cases meanings
    cases run
    apply Reader.finds_iterated_of_last
    exact (Reader.finds_nextKey_gap _ isGap head).bind (Reader.finds_pure _ u)
  | @cons first member members lead text row isLead entry others ih =>
    obtain ⟨field, fields, meaning, meanings', rfl⟩ := mapM_cons_eq_some.1 meanings
    obtain ⟨key, tree⟩ := member
    obtain ⟨name, named, meaning⟩ := Option.bind_eq_some_iff.1 meaning
    cases meaning
    have apart' := others.apart apart
    obtain ⟨s₁, one, more⟩ := h.finds_member isLead entry named apart' run
    rw [List.append_assoc, List.append_assoc]
    exact Reader.finds_iterated_of_more one (length_lt_entry entry lead _) (ih meanings' more)

theorem rest_of_closeItems {v : Unit} (h : closeItems c = .ok (v, c')) :
    ∃ gap, Gap gap ∧ c.rest = gap ++ ']' :: c'.rest := by
  obtain ⟨gap, c₁, x, isGap, eq, head, found⟩ := Reader.rest_of_peekToken h
  split at found
  . cases found
  . obtain ⟨t, eq'⟩ := List.head?_eq_some_iff.1 head
    cases found
    exact ⟨gap, isGap, by rw [eq, Cursor.rest_next eq', eq']⟩
  . obtain ⟨_, _, found⟩ := Reader.rest_of_advance head found
    obtain ⟨_, _, _, _, _, _, found⟩ := Reader.rest_of_peekToken found
    split at found <;> cases found
  . cases found

theorem finds_closeItems {gap : List Char} (isGap : Gap gap) (rest : List Char) :
    Reader.Finds closeItems (gap ++ ']' :: rest) () rest := by
  unfold closeItems
  exact (Reader.finds_token_gap isGap rfl _).bind (Reader.finds_advance ']' rest)

theorem readItems_at_end {fields : List (Field σ)} {index : Nat}
    (head : c.rest.head? = some ']')
    (found : r.readItems levels fields index first s c = .ok (.ok s', c')) :
    s' = s ∧ c'.rest = c.rest := by
  induction fields generalizing index c with
  | nil =>
    obtain ⟨same, rfl⟩ := Reader.pure_eq_ok.1 found
    cases same
    exact ⟨rfl, rfl⟩
  | cons field fields ih =>
    rw [readItems] at found
    obtain ⟨c₁, none, eq⟩ := Reader.finds_nextItem_gap first gap_nil head c rfl
    obtain ⟨more, c₂, next, found⟩ := Reader.bind_eq_ok.1 found
    cases none.symm.trans next
    simp only [Bool.false_eq_true, if_false] at found
    split at found
    . cases found
    . obtain ⟨same, eq'⟩ := ih (eq ▸ head) found
      exact ⟨same, eq'.trans eq⟩

theorem Described.unset_put (h : r.Described levels slots) {slot : Slot σ} {others : List (Slot σ)}
    (sub : ∀ other ∈ slot :: others, other ∈ slots)
    (nodup : ((slot :: others).map Slot.name).Nodup)
    (unset : ∀ other ∈ slot :: others, other.get s = none) (v : slot.content) :
    ∀ other ∈ others, other.get (slot.put v s) = none := by
  intro other mem
  have ne : other.name ≠ slot.name := by
    intro same
    apply (List.nodup_cons.1 nodup).1
    rw [← same]
    exact List.mem_map_of_mem mem
  rw [h.separate.get_put_of_ne slot (sub slot List.mem_cons_self) other
    (sub other (List.mem_cons_of_mem _ mem)) ne]
  exact unset other (List.mem_cons_of_mem _ mem)

theorem Described.sound_items (h : r.Described levels slots) {left : List (Slot σ)} {index : Nat}
    {v : Unit} {c₁ : Cursor} (sub : ∀ slot ∈ left, slot ∈ slots)
    (nodup : (left.map Slot.name).Nodup) (unset : ∀ slot ∈ left, slot.get s = none)
    (found : r.readItems levels (left.map Slot.field) index first s c = .ok (.ok s', c₁))
    (closed : closeItems c₁ = .ok (v, c')) :
    ∃ items row, Row Tree.Spells first items row ∧ c.rest = row ++ ']' :: c'.rest ∧
      items.length ≤ left.length ∧ Run slots s ((left.map Slot.name).zip items) s' := by
  induction left generalizing s c first index with
  | nil =>
    obtain ⟨same, rfl⟩ := Reader.pure_eq_ok.1 found
    cases same
    obtain ⟨gap, isGap, eq⟩ := rest_of_closeItems closed
    exact ⟨[], gap, .nil isGap, eq, Nat.le_refl _, .nil⟩
  | cons slot left ih =>
    rw [List.map_cons, readItems] at found
    obtain ⟨more, c₂, next, found⟩ := Reader.bind_eq_ok.1 found
    cases more with
    | true =>
      simp only [if_true] at found
      obtain ⟨s₁, c₃, read, found⟩ := Reader.bind_eq_ok.1 found
      obtain ⟨lead, isLead, eq⟩ := Reader.lead_of_nextItem next
      have mem := sub slot List.mem_cons_self
      obtain ⟨gap, text, tree, isGap, spells, eq', meaning⟩ :=
        (h.reads slot mem s _).sound (Nat.le_refl _) read
      obtain ⟨w, meaning', rfl⟩ := Option.map_eq_some_iff.1 meaning
      obtain ⟨items, row, isRow, eq'', le, run⟩ :=
        ih (fun other mem => sub other (List.mem_cons_of_mem _ mem)) (List.nodup_cons.1 nodup).2
          (h.unset_put sub nodup unset w) found
      refine ⟨tree :: items, _, .cons (isLead.append isGap) spells isRow, ?_,
        Nat.succ_le_succ le, ?_⟩
      . rw [eq, eq', eq'']
        simp only [List.append_assoc]
      . exact .field (Slot.find?_eq_some h.separate mem) (unset slot List.mem_cons_self) meaning'
          run
    | false =>
      simp only [Bool.false_eq_true, if_false] at found
      split at found
      . cases found
      . obtain ⟨gap, isGap, eq, head⟩ := Reader.end_of_nextItem next
        obtain ⟨rfl, eq'⟩ := readItems_at_end head found
        obtain ⟨gap', isGap', eq''⟩ := rest_of_closeItems closed
        refine ⟨[], gap ++ gap', .nil (isGap.append isGap'), ?_, Nat.zero_le _, ?_⟩
        . rw [eq, ← eq', eq'', List.append_assoc]
        . rw [List.zip_nil_right]
          exact .nil

theorem Described.complete_items (h : r.Described levels slots) {left : List (Slot σ)}
    {items : List Tree} {row : List Char} (sub : ∀ slot ∈ left, slot ∈ slots)
    (isRow : Row Tree.Spells first items row) (le : items.length ≤ left.length)
    (run : Run slots s ((left.map Slot.name).zip items) s')
    (optional : ∀ slot ∈ left.drop items.length, slot.field.required = false) (index : Nat)
    (rest : List Char) :
    ∃ gap, Gap gap ∧ Reader.Finds (r.readItems levels (left.map Slot.field) index first s)
      (row ++ ']' :: rest) (.ok s') (gap ++ ']' :: rest) := by
  have apart : Apart (']' :: rest) := apart_cons (by decide) rest
  induction left generalizing s first index items row with
  | nil =>
    cases List.length_eq_zero_iff.1 (Nat.le_zero.1 le)
    cases run
    cases isRow with
    | nil isGap => exact ⟨row, isGap, Reader.finds_pure _ _⟩
  | cons slot left ih =>
    have sub' : ∀ other ∈ left, other ∈ slots := fun other mem =>
      sub other (List.mem_cons_of_mem _ mem)
    cases isRow with
    | nil isGap =>
      rw [List.zip_nil_right] at run
      cases run
      obtain ⟨gap, isGap', others⟩ := ih sub' (.nil gap_nil) (Nat.zero_le _)
        (by rw [List.zip_nil_right]; exact .nil) (fun other mem => optional other (.tail _ mem))
        (index + 1)
      refine ⟨gap, isGap', ?_⟩
      rw [List.map_cons, readItems]
      apply (Reader.finds_nextItem_gap first isGap rfl).bind
      simp only [optional slot List.mem_cons_self, Bool.false_eq_true, if_false]
      exact others
    | @cons _ tree items lead text row isLead spells others =>
      have mem := sub slot List.mem_cons_self
      cases run with
      | other unknown =>
        rw [Slot.find?_eq_some h.separate mem] at unknown
        cases unknown
      | @field _ _ slot' _ _ v _ known unset meaning more =>
        cases (Slot.find?_eq_some h.separate mem).symm.trans known
        obtain ⟨gap, isGap', others'⟩ := ih sub' others (Nat.le_of_succ_le_succ le) more
          optional (index + 1)
        refine ⟨gap, isGap', ?_⟩
        have value := (h.reads slot mem s _).complete gap_nil spells
          (congrArg (Option.map fun v => slot.put v s) meaning) (others.apart apart) (Nat.le_refl _)
        rw [List.map_cons, readItems, List.append_assoc, List.append_assoc]
        apply (Reader.finds_nextItem_lead isLead spells.opens _).bind
        simp only [if_true]
        exact value.bind others'

theorem failClosing_ne_ok {close : Char} {cause : Cause} :
    (failClosing close cause : Reader α) c ≠ .ok (a, c') := by
  intro h
  obtain ⟨_, _, _, _, _, _, found⟩ := Reader.rest_of_peekToken h
  split at found
  . obtain ⟨_, _, _, fails⟩ := Reader.bind_eq_ok.1 found
    cases fails
  . cases found

theorem Described.run_empty_iff (h : r.Described levels slots) {fields : List (String × Tree)} :
    Run slots r.empty fields s ↔
      ∀ slot ∈ slots, optional? slot.mean slot.name fields = some (slot.get s) := by
  rw [Slot.run_iff h.separate]
  apply forall₂_congr
  intro slot mem
  rw [h.unset slot mem]
  rfl

theorem Described.not_named (h : r.Described levels slots) {items : List Tree} {slot : Slot σ}
    (mem : slot ∈ slots.drop items.length) :
    ((slots.map Slot.name).zip items).filter (·.1 == slot.name) = [] := by
  have le : items.length ≤ slots.length := by
    have := List.length_pos_of_mem mem
    rw [List.length_drop] at this
    omega
  have split : slots.map Slot.name =
      (slots.take items.length).map Slot.name ++ (slots.drop items.length).map Slot.name := by
    rw [← List.map_append, List.take_append_drop]
  have zip : (slots.map Slot.name).zip items =
      ((slots.take items.length).map Slot.name).zip items := by
    have whole : ((slots.take items.length).map Slot.name ++
        (slots.drop items.length).map Slot.name).zip (items ++ []) = _ :=
      List.zip_append (by simp [le])
    rw [List.append_nil, ← split, List.zip_nil_right, List.append_nil] at whole
    exact whole
  rw [List.filter_eq_nil_iff, zip]
  rintro ⟨key, tree⟩ found same
  have disjoint := (List.nodup_append.1 (split ▸ h.separate.nodup)).2.2
  exact disjoint key (List.of_mem_zip found).1 slot.name (List.mem_map_of_mem mem)
    (by simpa using same)

theorem Described.not_required (h : r.Described levels slots) {items : List Tree}
    (run : Run slots r.empty ((slots.map Slot.name).zip items) s) (finish : r.finish s = .ok a) :
    ∀ slot ∈ slots.drop items.length, slot.field.required = false := by
  intro slot mem
  rw [← Bool.not_eq_true]
  intro required
  have mem' := List.mem_of_mem_drop mem
  have held := h.run_empty_iff.1 run slot mem'
  unfold Tree.optional? at held
  rw [h.not_named mem] at held
  exact h.required finish slot mem' required (Option.some.inj held).symm

theorem finish_of_ok {close : Char} {state : Except Cause σ} {rest : α → Reader α}
    (found : (match state.bind r.finish with
      | .error cause => failClosing close cause
      | .ok a => rest a) c = .ok (a, c')) :
    ∃ s b, state = .ok s ∧ r.finish s = .ok b ∧ rest b c = .ok (a, c') := by
  cases state with
  | error cause => exact absurd found failClosing_ne_ok
  | ok s =>
    simp only [Except.bind] at found
    cases finish : r.finish s with
    | error cause =>
      rw [finish] at found
      exact absurd found failClosing_ne_ok
    | ok b =>
      rw [finish] at found
      exact ⟨s, b, rfl, finish, found⟩

theorem Described.between_object (h : r.Described levels slots) {mean : Tree → Option α} {b : α}
    {c₁ c₂ : Cursor} (eq : c.rest = '\x7b' :: c₁.rest)
    (run : Reader.iterate (r.readMember levels) true (.ok r.empty) c₁ = .ok (.ok s, c₂))
    (found : (do Reader.advance; pure b : Reader α) c₂ = .ok (a, c'))
    (meaning : ∀ tree fields, tree.fields? (slots.map Slot.name) = some fields →
      Run slots r.empty fields s → mean tree = some b) : Reader.Between c c' mean a := by
  obtain ⟨members, fields, row, isRow, eq', head, isFields, run⟩ := h.sound_iterate run
  obtain ⟨c₃, eq'', done⟩ := Reader.rest_of_advance head found
  obtain ⟨rfl, rfl⟩ := Reader.pure_eq_ok.1 done
  refine ⟨_, .object members, .object isRow, ?_, meaning _ fields isFields run⟩
  rw [eq, eq', eq'', List.cons_append, List.append_assoc]
  rfl

theorem Described.between_array (h : r.Described levels slots) {mean : Tree → Option α} {b : α}
    {c₁ c₂ : Cursor} (eq : c.rest = '[' :: c₁.rest)
    (run : r.readItems levels r.fields 0 true r.empty c₁ = .ok (.ok s, c₂))
    (found : (do closeItems; pure b : Reader α) c₂ = .ok (a, c'))
    (meaning : ∀ tree fields, tree.fields? (slots.map Slot.name) = some fields →
      Run slots r.empty fields s → mean tree = some b) : Reader.Between c c' mean a := by
  obtain ⟨_, c₃, closed, done⟩ := Reader.bind_eq_ok.1 found
  obtain ⟨rfl, rfl⟩ := Reader.pure_eq_ok.1 done
  rw [h.fields] at run
  obtain ⟨items, row, isRow, eq', le, run⟩ :=
    h.sound_items (fun _ mem => mem) h.separate.nodup h.unset run closed
  have isFields : Tree.fields? (slots.map Slot.name) (.array items) = some _ :=
    if_pos (by rwa [List.length_map])
  refine ⟨_, .array items, .array isRow, ?_, meaning _ _ isFields run⟩
  rw [eq, eq', List.cons_append, List.append_assoc]
  rfl

theorem Described.reads_read (h : r.Described levels slots) {mean : Tree → Option α}
    (meaning : ∀ tree a, mean tree = some a ↔ ∃ fields s,
      tree.fields? (slots.map Slot.name) = some fields ∧
      (∀ slot ∈ slots, optional? slot.mean slot.name fields = some (slot.get s)) ∧
      r.finish s = .ok a) : Reader.Reads (r.read (levels + 1)) mean := by
  simp only [← h.run_empty_iff] at meaning
  intro n
  constructor
  . intro c c' a _ found
    refine Reader.sound_token (fun c₁ _ found => ?_) found
    generalize head : c₁.rest.head? = x at found
    split at found
    . cases found
    . obtain ⟨c₂, eq, found⟩ := Reader.rest_of_advance head found
      obtain ⟨state, c₃, run, found⟩ := Reader.bind_eq_ok.1 found
      obtain ⟨s, b, rfl, finish, found⟩ := finish_of_ok found
      exact h.between_object eq run found fun tree fields isFields run =>
        (meaning _ _).2 ⟨fields, s, isFields, run, finish⟩
    . obtain ⟨c₂, eq, found⟩ := Reader.rest_of_advance head found
      obtain ⟨state, c₃, run, found⟩ := Reader.bind_eq_ok.1 found
      obtain ⟨s, b, rfl, finish, found⟩ := finish_of_ok found
      exact h.between_array eq run found fun tree fields isFields run =>
        (meaning _ _).2 ⟨fields, s, isFields, run, finish⟩
    . exact absurd found Reader.mismatch_ne_ok
  . intro gap text rest tree a isGap spells means _ _
    obtain ⟨fields, s, isFields, run, finish⟩ := (meaning _ _).1 means
    unfold read
    cases spells with
    | @object members row isRow =>
      rw [List.cons_append, List.append_assoc]
      apply (Reader.finds_token_gap isGap rfl _).bind
      apply Reader.Finds.advance
      apply (h.complete_iterate isRow isFields run rfl).bind
      simp only [Except.bind, finish]
      exact (Reader.finds_pure a rest).advance
    | @array items row isRow =>
      obtain ⟨le, same⟩ := Option.ite_none_right_eq_some.1 isFields
      cases same
      rw [List.length_map] at le
      obtain ⟨gap', isGap', found⟩ :=
        h.complete_items (fun _ mem => mem) isRow le run (h.not_required run finish) 0 rest
      rw [List.cons_append, List.append_assoc]
      apply (Reader.finds_token_gap isGap rfl _).bind
      apply Reader.Finds.advance
      rw [h.fields]
      apply found.bind
      simp only [Except.bind, finish]
      exact (finds_closeItems isGap' rest).bind (Reader.finds_pure a rest)
    | _ => cases isFields

end Record

end Json

end Interaction
