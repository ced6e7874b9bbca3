import Interaction.Definition.Basic
import Interaction.Report.Basic

/-!
This module contains the problems of definitions: what keeps a file from being used, and what is
merely odd about it.
-/

namespace Interaction

inductive Problem where
  | repeatedDescription
  | repeatedLanguage
  | repeatedName (name : String)
  | repeatedChannel (event : Event)
  | noLanguage (name : String)
  | undeclared (event : Event) (otherDirection : Bool)
  | unused (event : Event) (name : String)
  deriving DecidableEq, Repr

namespace Problem

def severity : Problem → Severity
  | .unused _ _ => .warning
  | _ => .error

def message : Problem → String
  | .repeatedDescription => "Protocol description given more than once"
  | .repeatedLanguage => "Protocol language given more than once"
  | .repeatedName name => "Protocol `" ++ name ++ "` is defined more than once"
  | .repeatedChannel e => (Fault.duplicateChannel e).message
  | .noLanguage name => "protocol `" ++ name ++ "` has no language"
  | .undeclared e otherDirection =>
    (Fault.undeclaredChannel e).message ++
      if otherDirection then
        " (`" ++ e.channel ++ "` is declared as an " ++ e.direction.opposite.word ++ "put)"
      else ""
  | .unused e name => e.channelText ++ " is never used by the language of `" ++ name ++ "`"

end Problem

structure LocatedProblem where
  problem : Problem
  start : Nat
  stop : Nat
  deriving DecidableEq, Repr

namespace Definition

def repeatedParts (described spoken : Bool) : List DefinitionPart → List LocatedProblem
  | [] => []
  | .description _ start stop :: rest =>
    (if described then [⟨.repeatedDescription, start, stop⟩] else []) ++
      repeatedParts true spoken rest
  | .language _ start stop :: rest =>
    (if spoken then [⟨.repeatedLanguage, start, stop⟩] else []) ++
      repeatedParts described true rest
  | .channel _ :: rest => repeatedParts described spoken rest

def repeatedChannels (declared : List Event) : List ChannelDeclaration → List LocatedProblem
  | [] => []
  | c :: rest =>
    (if declared.contains c.event then [⟨.repeatedChannel c.event, c.start, c.stop⟩] else []) ++
      repeatedChannels (c.event :: declared) rest

def undeclared (d : Definition) (text : LanguageText) : List LocatedProblem :=
  let declared := d.declarations.map (·.event)
  (text.references.filter (!declared.contains ·.event)).map fun r =>
    let other : Event := ⟨r.event.direction.opposite, r.event.channel⟩
    ⟨.undeclared r.event (declared.contains other), r.start, r.stop⟩

def unused (d : Definition) (text : LanguageText) : List LocatedProblem :=
  let used := text.references.map (·.event)
  (d.declarations.filter (!used.contains ·.event)).map fun c =>
    ⟨.unused c.event d.name, c.start, c.stop⟩

def problems (d : Definition) (earlier : List String) : List LocatedProblem :=
  repeatedParts false false d.parts ++
    (if earlier.contains d.name then [⟨.repeatedName d.name, d.start, d.stop⟩] else []) ++
    repeatedChannels [] d.declarations ++
    match d.language? with
    | none => [⟨.noLanguage d.name, d.start, d.stop⟩]
    | some text => d.undeclared text ++ d.unused text

def fileProblems (earlier : List String) : List Definition → List LocatedProblem
  | [] => []
  | d :: rest => d.problems earlier ++ fileProblems (d.name :: earlier) rest

end Definition

end Interaction
