import Interaction.Json.Reader

/-!
This module contains the reader of records. A record is written as an object whose members are its
fields, in any order and among others, or as an array of the fields in their order.
-/

namespace Interaction

namespace Json

structure Field (σ : Type) where
  name : String
  required : Bool
  isSet : σ → Bool
  read : Nat → σ → Reader σ

structure Record (σ α : Type) where
  name : String
  fields : List (Field σ)
  empty : σ
  finish : σ → Except Cause α

namespace Record

variable {σ α : Type}

def expectedItems (r : Record σ α) : String :=
  "struct " ++ r.name ++ " with " ++ toString r.fields.length ++ " elements"

def readMember (r : Record σ α) (levels : Nat) (first : Bool) (state : Except Cause σ) :
    Reader (Except Cause σ × Bool) := do
  match state with
  | .error cause => pure (.error cause, false)
  | .ok s =>
    match ← Reader.nextKey first with
    | none => pure (.ok s, false)
    | some key =>
      match r.fields.find? (·.name == key) with
      | none =>
        Reader.colon
        Reader.ignored
        pure (.ok s, true)
      | some field =>
        if field.isSet s then pure (.error (.duplicateField key), false)
        else
          Reader.colon
          let s ← field.read levels s
          pure (.ok s, true)

def readItems (r : Record σ α) (levels : Nat) :
    List (Field σ) → Nat → Bool → σ → Reader (Except Cause σ)
  | [], _, _, s => pure (.ok s)
  | field :: fields, index, first, s => do
    if ← Reader.nextItem first then
      let s ← field.read levels s
      r.readItems levels fields (index + 1) false s
    else if field.required then pure (.error (.invalidLength index r.expectedItems))
    else r.readItems levels fields (index + 1) first s

/--
Reports a fault of a whole record. Its place is after the closing bracket if that comes next, and
otherwise before the next token.
-/
def failClosing (close : Char) (cause : Cause) : Reader α := do
  if (← Reader.peekToken) = some close then Reader.advance
  Reader.failPassed cause

def closeItems : Reader Unit := do
  match ← Reader.peekToken with
  | none => Reader.failAhead .endInList
  | some ']' => Reader.advance
  | some ',' =>
    Reader.advance
    match ← Reader.peekToken with
    | some ']' => Reader.failAhead .trailingComma
    | _ => Reader.failAhead .trailingCharacters
  | some _ => Reader.failAhead .trailingCharacters

def read (r : Record σ α) (levels : Nat) : Reader α := do
  match ← Reader.peekToken with
  | none => Reader.failAhead .endInValue
  | some '\x7b' => Reader.opening levels fun levels => do
    let state ← (Reader.iterate (r.readMember levels) true (.ok r.empty) :
      Reader (Except Cause σ))
    match state.bind r.finish with
    | .error cause => failClosing '\x7d' cause
    | .ok a =>
      Reader.advance
      pure a
  | some '[' => Reader.opening levels fun levels => do
    match (← r.readItems levels r.fields 0 true r.empty).bind r.finish with
    | .error cause => failClosing ']' cause
    | .ok a =>
      closeItems
      pure a
  | some _ => Reader.mismatch ("struct " ++ r.name)

end Record

end Json

end Interaction
