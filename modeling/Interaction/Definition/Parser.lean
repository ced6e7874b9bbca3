import Interaction.Definition.Basic
import Interaction.Text.Blank

/-!
This module contains the reader of definition files.
-/

namespace Interaction

namespace Definition

open Interaction.Parser

def untilQuote : List Char → List Char
  | [] => []
  | '\\' :: c :: rest => '\\' :: c :: untilQuote rest
  | c :: rest => if c = '"' then [] else c :: untilQuote rest

def unescape : List Char → List Char
  | [] => []
  | ['\\'] => []
  | '\\' :: c :: rest => c :: unescape rest
  | c :: rest => c :: unescape rest

def parseQuotedText : Parser (List Char) := expecting .quotedText fun c =>
  let inner := untilQuote c.rest
  ⟨some (inner, c.forward inner.length), .start⟩

def parseQuoted : Parser (List Char) := expecting .quoted do
  literal "\""
  let inner ← parseQuotedText
  literal "\""
  pure inner

/-- Reads the description of a protocol. White space at its ends is dropped before escapes. -/
def parseDescription : Parser DefinitionPart := expecting .description do
  let start ← offset
  literal "description"
  layout
  let text ← parseQuoted
  layout
  literal ";"
  let stop ← offset
  pure (.description (unescape (Text.trim text)) start stop)

def parseDirection : Parser Direction := expecting .direction do
  let direction ← (do literal "in"; pure Direction.input) <|> (do literal "out"; pure .output)
  notBefore isNameChar
  pure direction

def parsePayloadType : Parser PayloadType := expecting .payloadType do
  let first ← takeWhile1 isNameChar
  let others ← many do
    literal "."
    let name ← takeWhile1 isNameChar
    pure ("." ++ name)
  pure (first ++ String.join others)

def parseChannel : Parser DefinitionPart := expecting .channelDeclaration do
  let start ← offset
  let direction ← parseDirection
  layout
  let channel ← Parser.name
  layout
  literal ":"
  layout
  let payload ← parsePayloadType
  layout
  literal ";"
  let stop ← offset
  pure (.channel ⟨⟨direction, channel⟩, payload, start, stop⟩)

def parseLanguage : Parser DefinitionPart := expecting .languageBlock do
  let start ← offset
  literal "language"
  layout
  literal "\x7b"
  layout
  let text ← Language.parseChoice
  layout
  literal "\x7d"
  let stop ← offset
  pure (.language text start stop)

def parseKeyword : Parser Unit := expecting .protocolKeyword do
  literal "protocol"
  notBefore isNameChar

def parse : Parser Definition := expecting .protocolBlock do
  let start ← offset
  parseKeyword
  layout
  let name ← Parser.name
  layout
  literal "\x7b"
  layout
  let parts ← repeated (parseDescription <|> parseChannel <|> parseLanguage)
  layout
  literal "\x7d"
  let stop ← offset
  pure ⟨name, parts, start, stop⟩

def parseFile : Parser (List Definition) := expecting .file do
  layout
  let definitions ← repeated parse
  layout
  expecting .endOfInput endOfText
  pure definitions

end Definition

end Interaction
