import Interaction.Definition.Check
import Interaction.Definition.Parser

/-!
This module contains the way from the text of a definition file to its protocols. Every problem of
the file is reported; a file with an error yields no protocol.
-/

namespace Interaction

namespace Definition

def report (file : Nat) (problems : List LocatedProblem) (r : Reporter) : Reporter :=
  problems.foldl
    (fun r p => r.add ⟨p.problem.severity, p.problem.message, some ⟨file, p.start, p.stop⟩⟩) r

def toProtocol (d : Definition) : Except Fault (Option (String × Protocol)) :=
  match d.language? with
  | none => .ok none
  | some text =>
    (Protocol.new d.description d.channels text.language).map fun protocol =>
      some (d.name, protocol)

/-- The protocols of a text, in the order of their definitions. The name appears in reports only. -/
def load (name text : String) (r : Reporter) :
    Except Fault (List (String × Protocol)) × Reporter :=
  let (file, r) := r.addFile name text
  match parseFile.run text with
  | .error e =>
    let span := ⟨file, e.position.offset, e.position.offset⟩
    (.error (.badText e), r.add ⟨.error, "Lexing failed: " ++ e.reason, some span⟩)
  | .ok definitions =>
    let before := r.errors
    let r := report file (fileProblems [] definitions) r
    if before < r.errors then (.error (.badFile (r.errors - before) name), r)
    else ((definitions.mapM toProtocol).map (·.filterMap id), r)

def loadFile (name : String) (content : Except Unreadable String) (r : Reporter) :
    Except Fault (List (String × Protocol)) × Reporter :=
  match content with
  | .error cause => (.error (.unreadable cause), r)
  | .ok text => load name text r

end Definition

end Interaction
