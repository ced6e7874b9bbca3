import Interaction.Json.Basic
import Interaction.Text.Quoted

/-!
This module contains what can be wrong with a JSON text, or with a JSON value that should have a
given shape, and the words for it.
-/

namespace Interaction

namespace Json

inductive Found where
  | null
  | bool (value : Bool)
  | number (value : Number)
  | string (text : String)
  | sequence
  | map
  deriving DecidableEq, Repr

def Found.ofJson : Json → Found
  | .null => .null
  | .bool value => .bool value
  | .number value => .number value
  | .string text => .string text
  | .array _ => .sequence
  | .object _ => .map

def Found.describe : Found → String
  | .null => "null"
  | .bool value => "boolean `" ++ toString value ++ "`"
  | .number (.integer value) => "integer `" ++ toString value ++ "`"
  | .number (.binary value) => "floating point `" ++ value.toText ++ "`"
  | .string text => "string " ++ Text.quoted text
  | .sequence => "sequence"
  | .map => "map"

inductive Cause where
  | endInValue
  | endInList
  | endInObject
  | endInString
  | expectedColon
  | expectedListEnd
  | expectedObjectEnd
  | expectedWord
  | expectedValue
  | keyNotString
  | controlCharacter
  | invalidEscape
  | loneSurrogate
  | endOfHexEscape
  | invalidNumber
  | numberTooLarge
  | trailingComma
  | trailingCharacters
  | tooDeep
  | missingField (name : String)
  | duplicateField (name : String)
  | invalidType (found : Found) (expected : String)
  | invalidInteger (value : Int) (expected : String)
  | invalidLength (length : Nat) (expected : String)
  deriving DecidableEq, Repr

inductive Category where
  | grammar
  | data
  | endOfText
  deriving DecidableEq, Repr

namespace Cause

def category : Cause → Category
  | .endInValue => .endOfText
  | .endInList => .endOfText
  | .endInObject => .endOfText
  | .endInString => .endOfText
  | .missingField _ => .data
  | .duplicateField _ => .data
  | .invalidType _ _ => .data
  | .invalidInteger _ _ => .data
  | .invalidLength _ _ => .data
  | _ => .grammar

def message : Cause → String
  | .endInValue => "EOF while parsing a value"
  | .endInList => "EOF while parsing a list"
  | .endInObject => "EOF while parsing an object"
  | .endInString => "EOF while parsing a string"
  | .expectedColon => "expected `:`"
  | .expectedListEnd => "expected `,` or `]`"
  | .expectedObjectEnd => "expected `,` or `\x7d`"
  | .expectedWord => "expected ident"
  | .expectedValue => "expected value"
  | .keyNotString => "key must be a string"
  | .controlCharacter => "control character (\\u0000-\\u001F) found while parsing a string"
  | .invalidEscape => "invalid escape"
  | .loneSurrogate => "lone leading surrogate in hex escape"
  | .endOfHexEscape => "unexpected end of hex escape"
  | .invalidNumber => "invalid number"
  | .numberTooLarge => "number out of range"
  | .trailingComma => "trailing comma"
  | .trailingCharacters => "trailing characters"
  | .tooDeep => "recursion limit exceeded"
  | .missingField name => "missing field `" ++ name ++ "`"
  | .duplicateField name => "duplicate field `" ++ name ++ "`"
  | .invalidType found expected =>
    "invalid type: " ++ found.describe ++ ", expected " ++ expected
  | .invalidInteger value expected =>
    "invalid value: integer `" ++ toString value ++ "`, expected " ++ expected
  | .invalidLength length expected =>
    "invalid length " ++ toString length ++ ", expected " ++ expected

end Cause

structure Error where
  cause : Cause
  column : Option Nat
  deriving DecidableEq, Repr

namespace Error

/-- Texts have one line; what has no place is put at line 0 and column 0. -/
def line (e : Error) : Nat := if e.column.isSome then 1 else 0

def message (e : Error) : String :=
  match e.column with
  | none => e.cause.message
  | some column =>
    e.cause.message ++ " at line " ++ toString e.line ++ " column " ++ toString column

end Error

end Json

end Interaction
