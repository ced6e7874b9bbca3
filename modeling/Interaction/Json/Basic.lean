import Interaction.Number.Shortest
import Interaction.Table

/-!
This module contains JSON values and their texts, compact or indented.
-/

namespace Interaction

inductive Number where
  | integer (value : Int)
  | binary (value : Binary64)
  deriving DecidableEq, Repr

def Number.toText : Number → String
  | .integer value => toString value
  | .binary value => value.toText

inductive Json where
  | null
  | bool (value : Bool)
  | number (value : Number)
  | string (text : String)
  | array (items : List Json)
  | object (members : List (String × Json))
  deriving Repr

namespace Json

def ofInt (n : Int) : Json := .number (.integer n)

def ofNat (n : Nat) : Json := .number (.integer n)

def ofBinary (x : Binary64) : Json := .number (.binary x)

def member? (key : String) : Json → Option Json
  | .object members => members.lookup key
  | _ => none

def controlDigits (n : Nat) : List Char :=
  [Nat.digitChar (n / 16), Nat.digitChar (n % 16)]

def escapeChar (c : Char) : List Char :=
  if c = '"' then ['\\', '"']
  else if c = '\\' then ['\\', '\\']
  else if c = '\n' then ['\\', 'n']
  else if c = '\r' then ['\\', 'r']
  else if c = '\t' then ['\\', 't']
  else if c.toNat = 8 then ['\\', 'b']
  else if c.toNat = 12 then ['\\', 'f']
  else if c.toNat < 0x20 then '\\' :: 'u' :: '0' :: '0' :: controlDigits c.toNat
  else [c]

def stringText (text : String) : List Char :=
  '"' :: (text.toList.flatMap escapeChar ++ ['"'])

mutual

def chars : Json → List Char
  | .null => ['n', 'u', 'l', 'l']
  | .bool true => ['t', 'r', 'u', 'e']
  | .bool false => ['f', 'a', 'l', 's', 'e']
  | .number value => value.toText.toList
  | .string text => stringText text
  | .array items => '[' :: (itemChars items ++ [']'])
  | .object members => '\x7b' :: (memberChars members ++ ['\x7d'])

def itemChars : List Json → List Char
  | [] => []
  | [item] => chars item
  | item :: rest => chars item ++ ',' :: itemChars rest

def memberChars : List (String × Json) → List Char
  | [] => []
  | [(key, value)] => stringText key ++ ':' :: chars value
  | (key, value) :: rest => stringText key ++ ':' :: (chars value ++ ',' :: memberChars rest)

end

def render (j : Json) : String := String.ofList j.chars

def lineBreak (level : Nat) : List Char := '\n' :: List.replicate (2 * level) ' '

mutual

def indentedChars (level : Nat) : Json → List Char
  | .null => chars .null
  | .bool value => chars (.bool value)
  | .number value => value.toText.toList
  | .string text => stringText text
  | .array [] => ['[', ']']
  | .array (item :: rest) =>
    '[' :: (indentedItems (level + 1) (item :: rest) ++ lineBreak level ++ [']'])
  | .object [] => ['\x7b', '\x7d']
  | .object (first :: rest) =>
    '\x7b' :: (indentedMembers (level + 1) (first :: rest) ++ lineBreak level ++ ['\x7d'])

def indentedItems (level : Nat) : List Json → List Char
  | [] => []
  | [item] => lineBreak level ++ indentedChars level item
  | item :: rest => lineBreak level ++ indentedChars level item ++ ',' :: indentedItems level rest

def indentedMembers (level : Nat) : List (String × Json) → List Char
  | [] => []
  | [(key, value)] => lineBreak level ++ stringText key ++ ':' :: ' ' :: indentedChars level value
  | (key, value) :: rest =>
    lineBreak level ++ stringText key ++ ':' :: ' ' :: indentedChars level value ++
      ',' :: indentedMembers level rest

end

def renderIndented (j : Json) : String := String.ofList (j.indentedChars 0)

end Json

end Interaction
