import Interaction.Json.Record
import Interaction.Proofs.Json.Container

/-!
This module contains the proof that a record is read from the text of an object whose members are
fields of the record, each one at most once.
-/

namespace Interaction

namespace Json

namespace Reader

variable {σ : Type} {t mid rest : List Char} {s s' s'' : σ}
variable {step : Bool → σ → Reader (σ × Bool)} {first : Bool}

def iterated (step : Bool → σ → Reader (σ × Bool)) (first : Bool) (s : σ) : Reader σ :=
  iterate step first s

theorem finds_iterated_of_last (last : Finds (step first s) t (s', false) rest) :
    Finds (iterated step first s) t s' rest := by
  intro c eq
  obtain ⟨c', found, eq'⟩ := last c eq
  refine ⟨c', ?_, eq'⟩
  unfold iterated
  rw [iterate, found]
  simp

theorem finds_iterated_of_more (one : Finds (step first s) t (s', true) mid)
    (less : mid.length < t.length) (others : Finds (iterated step false s') mid s'' rest) :
    Finds (iterated step first s) t s'' rest := by
  intro c eq
  obtain ⟨c', found, eq'⟩ := one c eq
  obtain ⟨c'', found', eq''⟩ := others c' eq'
  have moved : c'.left < c.left := by
    rw [Cursor.left_lt_iff, eq, eq']
    exact less
  refine ⟨c'', ?_, eq''⟩
  unfold iterated at *
  rw [iterate, found]
  simp only [moved, and_self, if_true]
  exact found'

end Reader

namespace Record

variable {σ α : Type} {r : Record σ α} {levels : Nat} {s s' : σ} {a : α}
variable {members : List (String × Json)}

inductive Takes (r : Record σ α) (levels : Nat) : σ → List (String × Json) → σ → Prop where
  | nil (s : σ) : Takes r levels s [] s
  | cons {s s' s'' : σ} {field : Field σ} {key : String} {value : Json}
    {members : List (String × Json)} (declared : r.fields.find? (·.name == key) = some field)
    (unset : field.isSet s = false) (read : Reader.Recovers (field.read levels s) value.chars s')
    (more : Takes r levels s' members s'') : Takes r levels s ((key, value) :: members) s''

theorem Takes.finds (h : Takes r levels s members s') (first : Bool) (rest : List Char) :
    Reader.Finds (Reader.iterated (r.readMember levels) first (.ok s))
      (joined first (members.map (memberText chars)) ++ '\x7d' :: rest) (.ok s')
      ('\x7d' :: rest) := by
  induction h generalizing first with
  | nil s =>
    apply Reader.finds_iterated_of_last
    exact (Reader.finds_nextKey_end first rest).bind (Reader.finds_pure _ _)
  | @cons s s' s'' field key value members declared unset read more ih =>
    apply Reader.finds_iterated_of_more _
      (Reader.length_lt_joined_member chars first (key, value) _ _) (ih false)
    rw [Reader.joined_member]
    unfold readMember
    apply (Reader.finds_nextKey key first _).bind
    simp only [declared, unset]
    apply (Reader.finds_colon _).bind
    have found := read _ (Reader.delimited_joined (.inr rfl) (members.map (memberText chars)) rest)
    exact found.bind (Reader.finds_pure _ _)

theorem Takes.recovers (h : Takes r levels r.empty members s) (finish : r.finish s = .ok a) :
    Reader.Recovers (r.read (levels + 1)) (chars (.object members)) a := by
  intro rest _
  unfold read chars
  rw [memberChars_eq, List.cons_append, List.append_assoc]
  apply (Reader.finds_token _ _ rfl).bind
  apply Reader.Finds.advance
  apply Reader.Finds.bind (h.finds true rest)
  simp only [Except.bind, finish]
  exact (Reader.finds_pure a rest).advance

end Record

end Json

end Interaction
