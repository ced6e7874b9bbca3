import Interaction.Catalog.Builtin
import Interaction.CommandLine.Arguments
import Interaction.CommandLine.Console
import Interaction.Supervisor.Basic

/-!
This module contains the commands of the program. What a command does to files and streams is not
done here: a command is told what it reads, and says what is to be written.
-/

namespace Interaction

namespace CommandLine

structure Surroundings where
  read : String → Except Unreadable (List UInt8)
  unwritable? : String → Option Unreadable
  sameFile : String → String → Bool
  input : List UInt8
  seed : Nat

structure Outcome where
  output : String := ""
  notices : String := ""
  failure : Option Failure := none
  file : Option String := none

namespace Outcome

def errorText (o : Outcome) : String :=
  o.notices ++ (o.failure.map Failure.report).getD ""

def code (o : Outcome) : Nat := if o.failure.isSome then 1 else 0

def ofExcept (notices : String) : Except Failure String → Outcome
  | .ok output => { output, notices }
  | .error failure => { notices, failure }

end Outcome

def Refusal.code : Refusal → Nat
  | .help => 0
  | .version => 0
  | .usage => 2

def jsonText (j : Json) : String := j.renderIndented ++ "\n"

def describeNode (kind : ReferenceNode) : String :=
  kind.use 0 fun node state => jsonText (node.describe state)

def catalogWith (file : Option String) (colour warnings : Bool) (s : Surroundings) :
    Except Failure Catalog × String :=
  match file with
  | none => (.ok .builtin, "")
  | some path =>
    let text := (s.read path).bind Text.decode
    match Catalog.builtin.loadFile path text (.new colour warnings) with
    | (.ok _, catalog, r) => (.ok catalog, r.textAfter 0)
    | (.error fault, _, r) =>
      (.error ((Failure.ofFault fault).within ("failed to load " ++ path)), r.textAfter 0)

def describeProtocol (name : String) (dot : Bool) (catalog : Catalog) : Except Failure String :=
  match catalog.get name with
  | .error fault => .error (.ofFault fault)
  | .ok protocol =>
    .ok (if dot then protocol.automaton.toDot else jsonText protocol.describe)

def superviseReference {σ : Type} (kind : ReferenceNode) (node : Node σ) (names : Option String) :
    Except Fault (Supervisor σ) := do
  let protocol ← Catalog.builtin.get kind.protocolName
  let names ← names.elim (pure .identity) Renaming.parse
  Supervisor.bind node protocol names

def openingEntry (path : String) : LogEntry :=
  ⟨.info, .supervisor, "Opening output file " ++ path⟩

def readingEntry : LogEntry := ⟨.info, .program, "Starting reading"⟩

def runFailure? : Except Failure Verdict → Option Failure
  | .error failure => some failure
  | .ok .unexpected =>
    some (.other ("protocol did not finish: " ++ Verdict.unexpectedReason))
  | .ok _ => none

/--
The bytes that a run reads, or why there are none. The file for the output is emptied before, so
that nothing is read if it is the same file.
-/
def runInput (input output : Option String) (s : Surroundings) : Except Unreadable (List UInt8) :=
  match input with
  | none => .ok s.input
  | some path => if output.any (s.sameFile path) then .ok [] else s.read path

def run {σ : Type} (kind : ReferenceNode) (node : Node σ) (state : σ)
    (input output names : Option String) (rank : Nat) (s : Surroundings) : Outcome :=
  match superviseReference kind node names with
  | .error fault => { failure := some (.ofFault fault) }
  | .ok supervisor =>
    let opening : Transcript := (output.map fun path => .logged (openingEntry path)).toList
    match output.bind s.unwritable? with
    | some cause =>
      { notices := opening.logText rank, failure := some (.ofFault (.unreadable cause)) }
    | none =>
      let (result, _, transcript) :=
        match runInput input output s with
        | .ok bytes => supervisor.run state bytes
        | .error cause => supervisor.runOn state [] (some cause)
      { output := transcript.output
        notices := (opening ++ .logged readingEntry :: transcript).logText rank
        failure := runFailure? result
        file := output }

def Request.showsWarnings (r : Request) : Bool := LogLevel.info.rank ≤ r.logRank

def execute (r : Request) (s : Surroundings) : Outcome :=
  match r.command with
  | .describeNode kind => { output := describeNode kind }
  | .describeProtocol name file dot =>
    let (catalog, notices) := catalogWith file r.colour r.showsWarnings s
    .ofExcept notices (catalog.bind (describeProtocol name dot))
  | .run kind input output names =>
    kind.use s.seed fun node state => run kind node state input output names r.logRank s

end CommandLine

end Interaction
