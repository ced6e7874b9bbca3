import Interaction.Json.Error
import Interaction.Parsing.SyntaxError
import Interaction.Session
import Interaction.Text.Encoding

/-!
This module contains what can go wrong with protocols, messages and nodes, and the words for it.
-/

namespace Interaction

inductive BadEntry where
  | shape
  | emptyName
  | direction
  | repeated
  deriving DecidableEq, Repr

def BadEntry.message : BadEntry → String
  | .shape => "expected `in:<wire>:<local>` or `out:<local>:<wire>`"
  | .emptyName => "channel names must not be empty"
  | .direction => "direction must be `in` or `out`"
  | .repeated => "channel is translated more than once"

inductive ConfigProblem where
  | noConfiguration (node : String)
  | unknownKey
  | illTyped (cause : Json.Cause)
  deriving DecidableEq, Repr

def ConfigProblem.message : ConfigProblem → String
  | .noConfiguration node => "node `" ++ node ++ "` has no configuration"
  | .unknownKey => "no such configuration key"
  | .illTyped cause => cause.message

inductive Fault where
  | badText (error : SyntaxError)
  | undeclaredChannel (event : Event)
  | duplicateChannel (event : Event)
  | unknownChannel (event : Event) (known : List String)
  | violation (event : Event) (expected : List Event)
  | missingHandler (node channel : String)
  | unknownProtocol (name : String) (known : List String)
  | duplicateProtocol (name : String)
  | badRenaming (entry : String) (problem : BadEntry)
  | malformedMessage (error : Json.Error)
  | badConfig (key : String) (problem : ConfigProblem)
  | badFile (problems : Nat) (name : String)
  | unreadable (cause : Unreadable)
  deriving DecidableEq, Repr

namespace Fault

def listing (names : List String) : String := "[" ++ ", ".intercalate names ++ "]"

def refusal (expected : List Event) : String :=
  Verdict.unexpectedReason ++
    if expected.isEmpty then "; nothing more was expected"
    else "; expected one of " ++ listing (expected.map Event.label)

def message : Fault → String
  | .badText error => error.message
  | .undeclaredChannel e =>
    "the language expects " ++ e.channelText ++ ", which is not declared as an " ++
      e.direction.word ++ "put"
  | .duplicateChannel e => e.channelText ++ " is declared more than once"
  | .unknownChannel e known => e.channelText ++ " not found in protocol; known: " ++ listing known
  | .violation e expected => "unexpected " ++ e.describe ++ ": " ++ refusal expected
  | .missingHandler node channel =>
    "node `" ++ node ++ "` has no handler for input channel `" ++ channel ++ "`"
  | .unknownProtocol name known =>
    "unknown protocol `" ++ name ++ "`; known: " ++ listing known
  | .duplicateProtocol name => "protocol `" ++ name ++ "` is defined more than once"
  | .badRenaming entry problem =>
    "malformed channel translation `" ++ entry ++ "`: " ++ problem.message
  | .malformedMessage error => "malformed message: " ++ error.message
  | .badConfig key problem =>
    "could not set config key `" ++ key ++ "`: " ++ problem.message
  | .badFile problems name => toString problems ++ " error(s) while parsing " ++ name
  | .unreadable cause => "i/o error: " ++ cause.message

def causes : Fault → List String
  | .malformedMessage error => [message (.malformedMessage error), error.message]
  | .unreadable cause => [message (.unreadable cause), cause.message]
  | fault => [fault.message]

end Fault

inductive Origin where
  | fault (fault : Fault)
  | other (text : String)
  deriving DecidableEq, Repr

structure Failure where
  context : List String
  origin : Origin
  deriving DecidableEq, Repr

namespace Failure

def ofFault (fault : Fault) : Failure := ⟨[], .fault fault⟩

def other (text : String) : Failure := ⟨[], .other text⟩

def within (f : Failure) (doing : String) : Failure := { f with context := doing :: f.context }

def chain (f : Failure) : List String :=
  f.context ++
    match f.origin with
    | .fault fault => fault.causes
    | .other text => [text]

def message (f : Failure) : String := f.chain.headD ""

end Failure

end Interaction
