import Interaction.Fault
import Interaction.Message.Reader
import Interaction.Text.Blank

/-!
This module contains the lines of a stream of messages, and a reader that is asked for one message
after the other. Blank lines hold no message. Lines that are texts are numbered from one; a line
that is no text has no number of its own.
-/

namespace Interaction

namespace Lines

def cut : List UInt8 → List (List UInt8)
  | [] => []
  | byte :: rest =>
    if byte = 10 then [byte] :: cut rest
    else
      match cut rest with
      | [] => [[byte]]
      | line :: others => (byte :: line) :: others

def parse (line : List UInt8) : Option (Except Fault Message) :=
  match Text.decode? line with
  | none => some (.error (.unreadable .notText))
  | some text =>
    let content := Text.trim text.toList
    if content.isEmpty then none
    else some ((Message.parse content).mapError .malformedMessage)

/-- The number of the last numbered line, when a line is read after line `number`. -/
def numberAfter (number : Nat) (line : List UInt8) : Nat :=
  if (Text.decode? line).isSome then number + 1 else number

def readFrom (number : Nat) : List (List UInt8) → List (Nat × Except Fault Message)
  | [] => []
  | line :: rest =>
    let number := numberAfter number line
    match parse line with
    | none => readFrom number rest
    | some result => (number, result) :: readFrom number rest

def read (bytes : List UInt8) : List (Nat × Except Fault Message) :=
  readFrom 0 (cut bytes)

def count (bytes : List UInt8) : Nat :=
  (cut bytes).foldl numberAfter 0

def takeLine : List UInt8 → List UInt8 × List UInt8
  | [] => ([], [])
  | byte :: rest =>
    if byte = 10 then ([byte], rest)
    else (byte :: (takeLine rest).1, (takeLine rest).2)

theorem length_takeLine_le (bytes : List UInt8) : (takeLine bytes).2.length ≤ bytes.length := by
  induction bytes with
  | nil => exact Nat.le_refl _
  | cons byte rest ih =>
    simp only [takeLine]
    split
    · simp
    · exact Nat.le_succ_of_le ih

theorem length_takeLine_cons_lt (byte : UInt8) (bytes : List UInt8) :
    (takeLine (byte :: bytes)).2.length < (byte :: bytes).length := by
  have le := length_takeLine_le bytes
  rw [takeLine]
  split
  · exact Nat.lt_succ_self _
  · exact Nat.lt_succ_of_le le

end Lines

structure Stream where
  rest : List UInt8
  number : Nat
  deriving DecidableEq, Repr

namespace Stream

open Lines

def ofBytes (bytes : List UInt8) : Stream := ⟨bytes, 0⟩

def next : Stream → Option (Except Fault Message) × Stream
  | ⟨[], number⟩ => (none, ⟨[], number⟩)
  | ⟨byte :: bytes, number⟩ =>
    let line := (takeLine (byte :: bytes)).1
    let rest := (takeLine (byte :: bytes)).2
    match Text.decode? line with
    | none => (some (.error (.unreadable .notText)), ⟨rest, number⟩)
    | some text =>
      let content := Text.trim text.toList
      if content.isEmpty then next ⟨rest, number + 1⟩
      else (some ((Message.parse content).mapError .malformedMessage), ⟨rest, number + 1⟩)
termination_by s => s.rest.length
decreasing_by exact length_takeLine_cons_lt byte bytes

end Stream

end Interaction
