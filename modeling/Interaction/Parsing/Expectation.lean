/-!
This module contains what a reader of protocol texts can say it was looking for, the words for it,
and the record of the furthest place at which a reader failed.
-/

namespace Interaction

inductive Expectation where
  | endOfInput
  | name
  | inputEvent
  | outputEvent
  | group
  | zeroOrMore
  | oneOrMore
  | optional
  | item
  | sequence
  | choice
  | language
  | direction
  | payloadType
  | quotedText
  | quoted
  | description
  | channelDeclaration
  | languageBlock
  | protocolKeyword
  | protocolBlock
  | file
  deriving DecidableEq, Repr

namespace Expectation

def all : List Expectation :=
  [.endOfInput, .name, .inputEvent, .outputEvent, .group, .zeroOrMore, .oneOrMore, .optional, .item,
    .sequence, .choice, .language, .direction, .payloadType, .quotedText, .quoted, .description,
    .channelDeclaration, .languageBlock, .protocolKeyword, .protocolBlock, .file]

def describe : Expectation → String
  | .endOfInput => "end of input"
  | .name => "a channel name"
  | .inputEvent => "`in:<name>`"
  | .outputEvent => "`out:<name>`"
  | .group => "`(`"
  | .zeroOrMore => "`*`"
  | .oneOrMore => "`+`"
  | .optional => "`?`"
  | .item => "an event such as `in:<name>` or `out:<name>`"
  | .sequence => "sequence"
  | .choice => "alternation"
  | .language => "language"
  | .direction => "dir"
  | .payloadType => "payload_type"
  | .quotedText => "string_inner"
  | .quoted => "string"
  | .description => "`description \"...\";`"
  | .channelDeclaration => "`in|out <name>: <type>;`"
  | .languageBlock => "`language \x7b ... \x7d`"
  | .protocolKeyword => "`protocol <name> \x7b ... \x7d`"
  | .protocolBlock => "`protocol <name> \x7b ... \x7d`"
  | .file => "file"

def listing (expected : List Expectation) : List Expectation :=
  all.filter expected.contains

def orList : List String → String
  | [] => ""
  | [a] => a
  | [a, b] => a ++ " or " ++ b
  | texts => ", ".intercalate texts.dropLast ++ ", or " ++ texts.getLastD ""

end Expectation

/--
The furthest place at which a reader failed, with what it looked for there. A reader that has not
failed anywhere has looked for nothing at the start of the text.
-/
structure Furthest where
  offset : Nat
  expected : List Expectation
  deriving DecidableEq, Repr

namespace Furthest

def start : Furthest := ⟨0, []⟩

def join (a b : Furthest) : Furthest :=
  if a.offset < b.offset then b
  else if b.offset < a.offset then a
  else ⟨a.offset, a.expected ++ b.expected⟩

/--
The record of a named reader that began at `offset` and failed. What its parts looked for further
on stands; of what they looked for at its beginning, a single thing stands, and several are summed
up by the reader's own name.
-/
def named (x : Expectation) (offset : Nat) (parts : Furthest) : Furthest :=
  if offset < parts.offset then parts
  else if parts.offset = offset ∧ parts.expected.length = 1 then parts
  else ⟨offset, [x]⟩

end Furthest

end Interaction
