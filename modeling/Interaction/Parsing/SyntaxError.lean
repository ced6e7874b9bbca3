import Interaction.Parsing.Basic

/-!
This module contains what is said about a text that cannot be read: where it goes wrong, what was
expected there, and the line with a mark under the place.
-/

namespace Interaction

structure SyntaxError where
  expected : List Expectation
  position : Position
  excerpt : String
  deriving DecidableEq, Repr

namespace SyntaxError

def reason (e : SyntaxError) : String :=
  "expected " ++ Expectation.orList (e.expected.map Expectation.describe)

def message (e : SyntaxError) : String :=
  "syntax error at line " ++ toString e.position.line ++ ", column " ++
    toString e.position.column ++ ": " ++ e.reason ++ "\n" ++ e.excerpt

def visibleEnds (line : List Char) : List Char :=
  line.map fun c => if c = '\r' then '␍' else if c = '\n' then '␊' else c

def withoutEnds (line : List Char) : List Char :=
  line.filter fun c => c != '\r' && c != '\n'

def lineAround (before after : List Char) : List Char :=
  let start := (before.reverse.takeWhile (· ≠ '\n')).reverse
  let stop := after.takeWhile (· ≠ '\n') ++ (after.dropWhile (· ≠ '\n')).take 1
  let line := start ++ stop
  if after.head?.any (fun c => c == '\n' || c == '\r') then visibleEnds line else withoutEnds line

def ofFurthest (text : List Char) (furthest : Furthest) : SyntaxError :=
  let (before, after) := Text.splitAtByte furthest.offset text
  let position := Position.after before
  let mark := List.replicate (position.column - 1) ' ' ++ ['^']
  { expected := Expectation.listing furthest.expected
    position
    excerpt := String.ofList (lineAround before after ++ '\n' :: mark) }

end SyntaxError

def Parser.run {α : Type} (p : Parser α) (text : String) : Except SyntaxError α :=
  match p (Cursor.ofText text.toList) with
  | ⟨some (a, _), _⟩ => .ok a
  | ⟨none, furthest⟩ => .error (SyntaxError.ofFurthest text.toList furthest)

end Interaction
