/-!
This module contains what is left of a text without the control sequences for a terminal. A text is
read character by character; the place within a sequence decides which characters belong to it.
-/

namespace Interaction

namespace Terminal

inductive Place where
  | text
  | escape
  | escapeWithMarks
  | parameters
  | deviceStart
  | deviceParameters
  | deviceMarks
  | deviceText
  | systemText
  deriving DecidableEq, Repr

def isLayout (c : Char) : Bool :=
  c = '\t' || c = '\n' || c.toNat = 12 || c = '\r'

def isShown (c : Char) : Bool :=
  isLayout c || (0x20 ≤ c.toNat && c.toNat != 0x7F)

def hasEndByte (c : Char) : Bool :=
  (String.singleton c).toUTF8.toList.contains 0x9C

namespace Place

def next (place : Place) (c : Char) : Place :=
  let n := c.toNat
  let isMark := 0x20 ≤ n && n ≤ 0x2F
  let isParameter := 0x30 ≤ n && n ≤ 0x3F
  let isLetter := 0x40 ≤ n && n ≤ 0x7E
  if n = 0x18 || n = 0x1A then .text
  else if n = 0x1B then .escape
  else
    match place with
    | .text => .text
    | .escape =>
      if isMark then .escapeWithMarks
      else if c = '[' then .parameters
      else if c = ']' then .systemText
      else if c = 'P' then .deviceStart
      else if c = 'X' || c = '^' || c = '_' then .deviceText
      else if isParameter || isLetter then .text
      else .escape
    | .escapeWithMarks => if isParameter || isLetter then .text else .escapeWithMarks
    | .parameters => if isLetter then .text else .parameters
    | .deviceStart =>
      if isMark then .deviceMarks
      else if isParameter then .deviceParameters
      else if isLetter then .deviceText
      else .deviceStart
    | .deviceParameters =>
      if isMark then .deviceMarks
      else if isLetter || (isParameter && 0x3C ≤ n) then .deviceText
      else .deviceParameters
    | .deviceMarks => if isParameter || isLetter then .deviceText else .deviceMarks
    | .deviceText => if 0x80 ≤ n && hasEndByte c then .text else .deviceText
    | .systemText => if n = 7 then .text else .systemText

def shows (place : Place) (c : Char) : Bool :=
  match place with
  | .text => isShown c
  | .escape => isLayout c
  | .escapeWithMarks => isLayout c
  | .parameters => isLayout c
  | _ => false

end Place

/--
What is shown of a text. A character that is shown within a sequence puts it off: all that follows
is judged as between sequences, up to the next character that is not shown there, which goes on with
the sequence. A character beyond ASCII ends it.
-/
def showFrom (place : Place) (showing : Bool) : List Char → List Char
  | [] => []
  | c :: rest =>
    if (showing && isShown c) || place.shows c then
      c :: showFrom (if c.toNat < 0x80 then place else .text) true rest
    else
      showFrom (place.next c) false rest

def plain (text : List Char) : List Char := showFrom .text false text

end Terminal

end Interaction
