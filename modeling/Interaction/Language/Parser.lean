import Interaction.Language.Basic
import Interaction.Parsing.SyntaxError

/-!
This module contains the reader of languages. A repetition sign binds tightest, then `;`, then `|`,
and parentheses group; white space and comments may stand between any two tokens. A sequence or a
choice of one element is that element.
-/

namespace Interaction

structure Reference where
  event : Event
  start : Nat
  stop : Nat
  deriving DecidableEq, Repr

structure LanguageText where
  language : Language
  references : List Reference

namespace LanguageText

def join (combine : List Language → Language) : List LanguageText → LanguageText
  | [part] => part
  | parts => ⟨combine (parts.map (·.language)), parts.flatMap (·.references)⟩

end LanguageText

namespace Language

open Interaction.Parser

def parseEvent (x : Expectation) (direction : Direction) : Parser LanguageText := expecting x do
  let start ← offset
  literal (direction.word ++ ":")
  let channel ← name
  let stop ← offset
  let event := ⟨direction, channel⟩
  pure ⟨.event event, [⟨event, start, stop⟩]⟩

def parseGroup (choice : Parser LanguageText) : Parser LanguageText := expecting .group do
  literal "("
  layout
  let inner ← choice
  layout
  literal ")"
  pure inner

def parseSign : Parser (Language → Language) :=
  (do expecting .zeroOrMore (literal "*"); pure .zeroOrMore)
    <|> (do expecting .oneOrMore (literal "+"); pure .oneOrMore)
    <|> (do expecting .optional (literal "?"); pure .optional)

def parseItem (choice : Parser LanguageText) : Parser LanguageText := expecting .item do
  let operand ← parseEvent .inputEvent .input <|> parseEvent .outputEvent .output
    <|> parseGroup choice
  layout
  let sign ← Parser.optional parseSign
  pure { operand with language := sign.getD id operand.language }

def parseSequence (choice : Parser LanguageText) : Parser LanguageText := expecting .sequence do
  let first ← parseItem choice
  layout
  let others ← repeated do
    literal ";"
    layout
    parseItem choice
  pure (.join .sequence (first :: others))

def parseChoice : Parser LanguageText := nested fun choice => expecting .choice do
  let first ← parseSequence choice
  layout
  let others ← repeated do
    literal "|"
    layout
    parseSequence choice
  pure (.join .either (first :: others))

def parseText : Parser LanguageText := expecting .language do
  layout
  let found ← parseChoice
  layout
  expecting .endOfInput endOfText
  pure found

def parse (text : String) : Except SyntaxError Language :=
  (parseText.run text).map (·.language)

end Language

end Interaction
