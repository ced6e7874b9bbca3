import Interaction.Language.Basic

/-!
This module contains the text of a language: events as `in:x` and `out:x`, ` ; ` between the parts
of a sequence, ` | ` between branches, and a repetition sign after a space. Parentheses stand where
the text would otherwise be grouped in another way.
-/

namespace Interaction

namespace Language

def enclosedInSequence : Language → Bool
  | .sequence _ => true
  | .either _ => true
  | _ => false

def enclosedInEither : Language → Bool
  | .either _ => true
  | _ => false

def enclosedInRepetition (l : Language) : Bool := !l.isEvent

def encloseIf (needed : Bool) (text : String) : String :=
  if needed then "(" ++ text ++ ")" else text

mutual

def render : Language → String
  | .event e => e.label
  | .sequence parts => renderParts parts
  | .either branches => renderBranches branches
  | .optional body => encloseIf body.enclosedInRepetition (render body) ++ " ?"
  | .zeroOrMore body => encloseIf body.enclosedInRepetition (render body) ++ " *"
  | .oneOrMore body => encloseIf body.enclosedInRepetition (render body) ++ " +"

def renderParts : List Language → String
  | [] => ""
  | [l] => encloseIf l.enclosedInSequence (render l)
  | l :: rest => encloseIf l.enclosedInSequence (render l) ++ " ; " ++ renderParts rest

def renderBranches : List Language → String
  | [] => ""
  | [l] => encloseIf l.enclosedInEither (render l)
  | l :: rest => encloseIf l.enclosedInEither (render l) ++ " | " ++ renderBranches rest

end

end Language

end Interaction
