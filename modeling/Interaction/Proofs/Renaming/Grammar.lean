import Interaction.Proofs.Text.Pieces
import Interaction.Renaming
import Mathlib.Data.List.Nodup
import Mathlib.Data.List.Perm.Basic

/-!
This module contains what the pieces of a renaming's text mean: each is blank, spells an entry, or
has something wrong with it. The entries do not depend on blank pieces or on white space around
parts.
-/

namespace Interaction

namespace Renaming

structure Entry where
  direction : Direction
  source : String
  target : String
  deriving DecidableEq

namespace Entry

def key (e : Entry) : Direction × String := (e.direction, e.source)

end Entry

structure Cut (text : String) (pieces : List (List Char)) : Prop where
  ne_nil : pieces ≠ []
  apart : ∀ piece ∈ pieces, ',' ∉ piece
  eq : text.toList = Text.joined ',' pieces

structure Parts (piece direction source target : List Char) : Prop where
  eq : piece = direction ++ ':' :: (source ++ ':' :: target)
  direction_apart : ':' ∉ direction
  source_apart : ':' ∉ source
  target_apart : ':' ∉ target

def Blank (text : List Char) : Prop := ∀ c ∈ text, Text.isBlank c = true

def Entry.SpelledBy (e : Entry) (piece : List Char) : Prop :=
  ∃ direction source target, Parts piece direction source target ∧
    Text.trim direction = e.direction.word.toList ∧
    Text.trim source = e.source.toList ∧ e.source ≠ "" ∧
    Text.trim target = e.target.toList ∧ e.target ≠ ""

inductive Lists : List (List Char) → List Entry → Prop where
  | nil : Lists [] []
  | blank {piece : List Char} {pieces : List (List Char)} {es : List Entry} (white : Blank piece)
    (others : Lists pieces es) : Lists (piece :: pieces) es
  | entry {piece : List Char} {pieces : List (List Char)} {e : Entry} {es : List Entry}
    (spelled : e.SpelledBy piece) (others : Lists pieces es) : Lists (piece :: pieces) (e :: es)

inductive Malformed (piece : List Char) : BadEntry → Prop where
  | shape (full : ¬Blank piece) (noParts : ∀ d s t, ¬Parts piece d s t) : Malformed piece .shape
  | emptyName {d s t : List Char} (parts : Parts piece d s t) (empty : Blank s ∨ Blank t) :
    Malformed piece .emptyName
  | direction {d s t : List Char} (parts : Parts piece d s t) (source : ¬Blank s)
    (target : ¬Blank t) (unknown : ∀ direction : Direction, Text.trim d ≠ direction.word.toList) :
    Malformed piece .direction

def Bad (es : List Entry) (piece : List Char) (problem : BadEntry) : Prop :=
  Malformed piece problem ∨
    problem = .repeated ∧ ∃ e : Entry, e.SpelledBy piece ∧ e.key ∈ es.map Entry.key

def Padded (text padded : List Char) : Prop :=
  ∃ front back, Blank front ∧ Blank back ∧ padded = front ++ (text ++ back)

/-- Whether pieces are other ones in another order, with blank pieces added, or with white space put
around their parts. -/
inductive Relaid : List (List Char) → List (List Char) → Prop where
  | perm {pieces pieces' : List (List Char)} (h : pieces.Perm pieces') : Relaid pieces pieces'
  | blank {piece : List Char} (pieces : List (List Char)) (white : Blank piece) :
    Relaid pieces (piece :: pieces)
  | padded {piece piece' d d' s s' t t' : List Char} (pieces : List (List Char))
    (parts : Parts piece d s t) (parts' : Parts piece' d' s' t') (direction : Padded d d')
    (source : Padded s s') (target : Padded t t') : Relaid (piece :: pieces) (piece' :: pieces)
  | trans {pieces pieces' pieces'' : List (List Char)} (h : Relaid pieces pieces')
    (h' : Relaid pieces' pieces'') : Relaid pieces pieces''

variable {piece d s t : List Char} {pieces pieces' : List (List Char)}
variable {e : Entry} {es es' : List Entry} {problem : BadEntry} {text : String}

theorem cut_iff : Cut text pieces ↔ Text.splitAt ',' text.toList = pieces := by
  rw [Text.splitAt_eq_iff]
  constructor
  . intro h
    exact ⟨h.ne_nil, h.apart, h.eq⟩
  . rintro ⟨ne, apart, eq⟩
    exact ⟨ne, apart, eq⟩

theorem Parts.splitAt_eq (h : Parts piece d s t) : Text.splitAt ':' piece = [d, s, t] := by
  rw [h.eq, Text.splitAt_append h.direction_apart, Text.splitAt_append h.source_apart,
    Text.splitAt_of_notMem h.target_apart]

theorem parts_of_splitAt (h : Text.splitAt ':' piece = [d, s, t]) : Parts piece d s t := by
  obtain ⟨_, apart, eq⟩ := Text.splitAt_eq_iff.1 h
  exact ⟨eq, apart d (by simp), apart s (by simp), apart t (by simp)⟩

theorem Parts.unique {d' s' t' : List Char} (h : Parts piece d s t) (h' : Parts piece d' s' t') :
    d = d' ∧ s = s' ∧ t = t' := by
  have eq := h.splitAt_eq.symm.trans h'.splitAt_eq
  simpa using eq

theorem Parts.not_blank (h : Parts piece d s t) : ¬Blank piece := by
  intro white
  have colon : ':' ∈ piece := by
    rw [h.eq]
    simp
  cases white ':' colon

theorem isEmpty_trim_iff : (Text.trim piece).isEmpty = true ↔ Blank piece := by
  rw [List.isEmpty_iff]
  exact Text.trim_eq_nil_iff

theorem parseEntry_of_not_parts (h : ∀ d s t, ¬Parts piece d s t) :
    parseEntry (Text.trim piece) = .error .shape := by
  unfold parseEntry
  rw [Text.map_trim_splitAt_trim rfl]
  match eq : Text.splitAt ':' piece with
  | [d, s, t] => exact absurd (parts_of_splitAt eq) (h d s t)
  | [] => rfl
  | [_] => rfl
  | [_, _] => rfl
  | _ :: _ :: _ :: _ :: _ => rfl

theorem parseEntry_of_parts (h : Parts piece d s t) :
    parseEntry (Text.trim piece) =
      if (Text.trim s).isEmpty || (Text.trim t).isEmpty then .error .emptyName
      else
        let names := (String.ofList (Text.trim s), String.ofList (Text.trim t))
        if Text.trim d = ['i', 'n'] then .ok (.input, names)
        else if Text.trim d = ['o', 'u', 't'] then .ok (.output, names)
        else .error .direction := by
  unfold parseEntry
  rw [Text.map_trim_splitAt_trim rfl, h.splitAt_eq]
  rfl

theorem parseEntry_of_names (h : Parts piece d s t) (source : ¬Blank s) (target : ¬Blank t) :
    parseEntry (Text.trim piece) =
      let names := (String.ofList (Text.trim s), String.ofList (Text.trim t))
      if Text.trim d = ['i', 'n'] then .ok (.input, names)
      else if Text.trim d = ['o', 'u', 't'] then .ok (.output, names)
      else .error .direction := by
  rw [← isEmpty_trim_iff] at source target
  rw [parseEntry_of_parts h, if_neg]
  rw [Bool.or_eq_true, not_or]
  exact ⟨source, target⟩

theorem not_blank_of_trim {name : String} (h : Text.trim s = name.toList) (ne : name ≠ "") :
    ¬Blank s := by
  intro white
  rw [Text.trim_of_blank white, eq_comm, String.toList_eq_nil_iff] at h
  exact ne h

theorem parseEntry_of_spelled (h : e.SpelledBy piece) :
    parseEntry (Text.trim piece) = .ok (e.direction, e.source, e.target) := by
  obtain ⟨d, s, t, parts, word, source, someSource, target, someTarget⟩ := h
  rw [parseEntry_of_names parts (not_blank_of_trim source someSource)
    (not_blank_of_trim target someTarget), word, source, target, String.ofList_toList,
    String.ofList_toList]
  cases e.direction <;> rfl

theorem parseEntry_of_malformed (h : Malformed piece problem) :
    parseEntry (Text.trim piece) = .error problem := by
  cases h with
  | shape _ noParts => exact parseEntry_of_not_parts noParts
  | emptyName parts empty =>
    rw [← isEmpty_trim_iff, ← isEmpty_trim_iff, ← Bool.or_eq_true] at empty
    rw [parseEntry_of_parts parts, if_pos empty]
  | @direction d _ _ parts source target unknown =>
    have noInput : Text.trim d ≠ ['i', 'n'] := unknown .input
    have noOutput : Text.trim d ≠ ['o', 'u', 't'] := unknown .output
    rw [parseEntry_of_names parts source target]
    exact (if_neg noInput).trans (if_neg noOutput)

theorem trim_eq_toList (full : ¬Blank s) :
    Text.trim s = (String.ofList (Text.trim s)).toList ∧ String.ofList (Text.trim s) ≠ "" := by
  refine ⟨String.toList_ofList.symm, ?_⟩
  rw [Ne, ← String.toList_eq_nil_iff, String.toList_ofList]
  exact fun none => full (Text.trim_eq_nil_iff.1 none)

theorem spelled_or_malformed (full : ¬Blank piece) :
    (∃ e : Entry, e.SpelledBy piece) ∨ ∃ problem, Malformed piece problem := by
  by_cases parts : ∃ d s t, Parts piece d s t
  . obtain ⟨d, s, t, parts⟩ := parts
    by_cases empty : Blank s ∨ Blank t
    . exact .inr ⟨_, .emptyName parts empty⟩
    . rw [not_or] at empty
      by_cases known : ∃ direction : Direction, Text.trim d = direction.word.toList
      . obtain ⟨direction, word⟩ := known
        have source := trim_eq_toList empty.1
        have target := trim_eq_toList empty.2
        exact .inl ⟨⟨direction, String.ofList (Text.trim s), String.ofList (Text.trim t)⟩,
          d, s, t, parts, word, source.1, source.2, target⟩
      . exact .inr ⟨_, .direction parts empty.1 empty.2 (not_exists.1 known)⟩
  . refine .inr ⟨_, .shape full ?_⟩
    intro d s t h
    exact parts ⟨d, s, t, h⟩

theorem Entry.SpelledBy.not_blank (h : e.SpelledBy piece) : ¬Blank piece := by
  obtain ⟨_, _, _, parts, _⟩ := h
  exact parts.not_blank

theorem Malformed.not_blank (h : Malformed piece problem) : ¬Blank piece := by
  cases h with
  | shape full => exact full
  | emptyName parts => exact parts.not_blank
  | direction parts => exact parts.not_blank

theorem Entry.SpelledBy.unique {e' : Entry} (h : e.SpelledBy piece) (h' : e'.SpelledBy piece) :
    e = e' := by
  have same := (parseEntry_of_spelled h).symm.trans (parseEntry_of_spelled h')
  cases e
  cases e'
  simpa using same

theorem Malformed.not_spelled (h : Malformed piece problem) : ¬e.SpelledBy piece := by
  intro spelled
  cases (parseEntry_of_spelled spelled).symm.trans (parseEntry_of_malformed h)

theorem Bad.unique {problem' : BadEntry} (h : Bad es piece problem) (h' : Bad es piece problem') :
    problem = problem' := by
  rcases h with malformed | ⟨rfl, e, spelled, _⟩ <;>
    rcases h' with malformed' | ⟨rfl, e', spelled', _⟩
  . cases (parseEntry_of_malformed malformed).symm.trans (parseEntry_of_malformed malformed')
    rfl
  . exact absurd spelled' malformed.not_spelled
  . exact absurd spelled malformed'.not_spelled
  . rfl

theorem Bad.not_blank (h : Bad es piece problem) : ¬Blank piece := by
  rcases h with malformed | ⟨_, e, spelled, _⟩
  . exact malformed.not_blank
  . exact spelled.not_blank

theorem Bad.mem_keys (h : Bad es piece problem) (spelled : e.SpelledBy piece) :
    e.key ∈ es.map Entry.key := by
  rcases h with malformed | ⟨_, e', spelled', mem⟩
  . exact absurd spelled malformed.not_spelled
  . rwa [spelled.unique spelled']

theorem lists_cons_of_blank (white : Blank piece) :
    Lists (piece :: pieces) es ↔ Lists pieces es := by
  constructor
  . intro h
    cases h with
    | blank _ others => exact others
    | entry spelled => exact absurd white spelled.not_blank
  . exact .blank white

theorem lists_cons_of_spelled (spelled : e.SpelledBy piece) :
    Lists (piece :: pieces) es ↔ ∃ es', es = e :: es' ∧ Lists pieces es' := by
  constructor
  . intro h
    cases h with
    | blank white => exact absurd white spelled.not_blank
    | entry spelled' others => exact ⟨_, by rw [spelled.unique spelled'], others⟩
  . rintro ⟨es', rfl, others⟩
    exact .entry spelled others

theorem Padded.trim_eq {text padded : List Char} (h : Padded text padded) :
    Text.trim padded = Text.trim text := by
  obtain ⟨front, back, before, behind, rfl⟩ := h
  rw [Text.trim_blank_append before, Text.trim_append_of_blank behind]

theorem Lists.perm (h : Lists pieces es) (others : pieces.Perm pieces') :
    ∃ es', es.Perm es' ∧ Lists pieces' es' := by
  induction others generalizing es with
  | nil => exact ⟨es, .rfl, h⟩
  | cons piece _ ih =>
    cases h with
    | blank white lists =>
      obtain ⟨es', perm, lists⟩ := ih lists
      exact ⟨es', perm, .blank white lists⟩
    | @entry _ _ e _ spelled lists =>
      obtain ⟨es', perm, lists⟩ := ih lists
      exact ⟨e :: es', perm.cons e, .entry spelled lists⟩
  | swap piece piece' pieces =>
    cases h with
    | blank white lists =>
      cases lists with
      | blank white' lists => exact ⟨_, .rfl, .blank white' (.blank white lists)⟩
      | entry spelled lists => exact ⟨_, .rfl, .entry spelled (.blank white lists)⟩
    | @entry _ _ e _ spelled lists =>
      cases lists with
      | blank white lists => exact ⟨_, .rfl, .blank white (.entry spelled lists)⟩
      | @entry _ _ e' es spelled' lists =>
        exact ⟨_, .swap e' e es, .entry spelled' (.entry spelled lists)⟩
  | trans _ _ ih ih' =>
    obtain ⟨es₁, perm, lists⟩ := ih h
    obtain ⟨es₂, perm', lists⟩ := ih' lists
    exact ⟨es₂, perm.trans perm', lists⟩

theorem Entry.SpelledBy.padded {piece' d' s' t' : List Char} (h : e.SpelledBy piece)
    (parts : Parts piece d s t) (parts' : Parts piece' d' s' t') (direction : Padded d d')
    (source : Padded s s') (target : Padded t t') : e.SpelledBy piece' := by
  obtain ⟨_, _, _, own, word, eqSource, someSource, eqTarget, someTarget⟩ := h
  obtain ⟨rfl, rfl, rfl⟩ := own.unique parts
  exact ⟨d', s', t', parts', direction.trim_eq.trans word, source.trim_eq.trans eqSource,
    someSource, target.trim_eq.trans eqTarget, someTarget⟩

theorem Lists.relaid (h : Lists pieces es) (relaid : Relaid pieces pieces') :
    ∃ es', es.Perm es' ∧ Lists pieces' es' := by
  induction relaid generalizing es with
  | perm others => exact h.perm others
  | blank _ white => exact ⟨es, .rfl, .blank white h⟩
  | padded _ parts parts' direction source target =>
    cases h with
    | blank white => exact absurd white parts.not_blank
    | entry spelled lists =>
      exact ⟨_, .rfl, .entry (spelled.padded parts parts' direction source target) lists⟩
  | trans _ _ ih ih' =>
    obtain ⟨es₁, perm, lists⟩ := ih h
    obtain ⟨es₂, perm', lists⟩ := ih' lists
    exact ⟨es₂, perm.trans perm', lists⟩

end Renaming

end Interaction
