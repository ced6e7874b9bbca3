import Interaction.Node.Reference
import Interaction.Supervisor.Transcript

/-!
This module contains the arguments of the command line. Some options are common to all commands and
may stand before or after the name of the command; one that stands on both sides counts as it stands
after the name. Arguments are judged from left to right, so that a wrong one counts before help that
is asked for behind it.
-/

namespace Interaction

namespace CommandLine

inductive Refusal where
  | help
  | version
  | usage
  deriving DecidableEq, Repr

inductive Command where
  | run (node : ReferenceNode) (input output names : Option String)
  | describeNode (node : ReferenceNode)
  | describeProtocol (name : String) (file : Option String) (dot : Bool)
  deriving DecidableEq, Repr

structure Request where
  logRank : Nat
  colour : Bool
  command : Command
  deriving DecidableEq, Repr

def colourOfWord? : String → Option Bool
  | "auto" => some true
  | "always" => some true
  | "never" => some false
  | _ => none

inductive ValueKind where
  | text
  | path
  | node
  | colour
  deriving DecidableEq, Repr

def ValueKind.accepts (value : String) : ValueKind → Bool
  | .text => true
  | .path => value != ""
  | .node => (ReferenceNode.ofWord? value).isSome
  | .colour => (colourOfWord? value).isSome

structure Options where
  valued : List (String × ValueKind)
  flags : List String := []
  version : Bool := false
  words : Nat := 0

structure Part where
  verbose : Nat
  quiet : Nat
  values : List (String × String)
  flags : List String
  words : List String
  deriving DecidableEq, Repr

namespace Part

def empty : Part := ⟨0, 0, [], [], []⟩

def addLetters (options : Options) (part : Part) : List Char → Except Refusal Part
  | [] => .ok part
  | 'v' :: rest => addLetters options { part with verbose := part.verbose + 1 } rest
  | 'q' :: rest => addLetters options { part with quiet := part.quiet + 1 } rest
  | 'h' :: _ => .error .help
  | 'V' :: _ => .error (if options.version then .version else .usage)
  | _ => .error .usage

def addValue (part : Part) (name : String) (kind : ValueKind) (value : String) :
    Except Refusal Part :=
  if (part.values.lookup name).isSome || !kind.accepts value then .error .usage
  else .ok { part with values := (name, value) :: part.values }

def addWords (options : Options) (part : Part) (words : List String) : Except Refusal Part :=
  let words := part.words ++ words
  if options.words < words.length then .error .usage else .ok { part with words }

def addFlag (options : Options) (part : Part) (name : String) : Except Refusal Part :=
  if name = "--verbose" then .ok { part with verbose := part.verbose + 1 }
  else if name = "--quiet" then .ok { part with quiet := part.quiet + 1 }
  else if name = "--help" then .error .help
  else if name = "--version" && options.version then .error .version
  else if !options.flags.contains name || part.flags.contains name then .error .usage
  else .ok { part with flags := name :: part.flags }

def isValue (argument : String) : Bool :=
  argument.toList.head? != some '-' || argument = "-"

/--
Reads arguments. Where `stopAtWord` is set, the first argument that is no option ends the part; it
is yielded with the arguments after it.
-/
def scan (options : Options) (stopAtWord : Bool) (part : Part) :
    List String → Except Refusal (Part × List String)
  | [] => .ok (part, [])
  | argument :: rest =>
    match argument.toList with
    | ['-', '-'] =>
      if stopAtWord then .error .usage
      else do
        pure (← part.addWords options rest, [])
    | '-' :: '-' :: _ =>
      let name := String.ofList (argument.toList.takeWhile (· ≠ '='))
      match options.valued.lookup name, argument.toList.dropWhile (· ≠ '=') with
      | some kind, _ :: value => do
        scan options stopAtWord (← part.addValue name kind (String.ofList value)) rest
      | some kind, [] =>
        match rest with
        | value :: rest =>
          if isValue value then do
            scan options stopAtWord (← part.addValue name kind value) rest
          else .error .usage
        | [] => .error .usage
      | none, [] => do
        scan options stopAtWord (← part.addFlag options name) rest
      | none, _ :: _ => .error .usage
    | '-' :: letter :: letters => do
      scan options stopAtWord (← part.addLetters options (letter :: letters)) rest
    | _ =>
      if stopAtWord then .ok (part, argument :: rest)
      else do
        scan options stopAtWord (← part.addWords options [argument]) rest

def countLimit : Nat := 255

def louder (part : Part) : Nat := min part.verbose countLimit

def quieter (part : Part) : Nat := min part.quiet countLimit

def isConsistent (part : Part) : Bool := part.verbose = 0 || part.quiet = 0

def required (part : Part) (name : String) : Except Refusal String :=
  match part.values.lookup name with
  | some value => .ok value
  | none => .error .usage

def node (part : Part) : Except Refusal ReferenceNode := do
  match ReferenceNode.ofWord? (← part.required "--node") with
  | some node => pure node
  | none => .error .usage

def colour? (part : Part) : Option Bool :=
  (part.values.lookup "--color").bind colourOfWord?

end Part

def commonOptions : Options where
  valued := [("--color", .colour)]
  version := true

def runOptions : Options where
  valued := [
    ("--color", .colour), ("--node", .node), ("--input", .path), ("--output", .path),
    ("--translate", .text)]

def nodeOptions : Options where
  valued := [("--color", .colour), ("--node", .node)]

def protocolOptions : Options where
  valued := [("--color", .colour), ("--file", .path)]
  flags := ["--dot"]
  words := 1

def commandNames : List String := ["run", "describe-node", "describe-protocol", "help"]

def helpOn : List String → Refusal
  | [] => .help
  | [name] => if commandNames.contains name then .help else .usage
  | _ => .usage

def parseCommand (name : String) (arguments : List String) : Except Refusal (Part × Command) := do
  if name = "run" then
    let (part, _) ← Part.scan runOptions false .empty arguments
    let value? (option : String) := part.values.lookup option
    pure (part,
      .run (← part.node) (value? "--input") (value? "--output") (value? "--translate"))
  else if name = "describe-node" then
    let (part, _) ← Part.scan nodeOptions false .empty arguments
    pure (part, .describeNode (← part.node))
  else if name = "describe-protocol" then
    let (part, _) ← Part.scan protocolOptions false .empty arguments
    match part.words with
    | [protocol] =>
      let file := part.values.lookup "--file"
      pure (part, .describeProtocol protocol file (part.flags.contains "--dot"))
    | _ => .error .usage
  else if name = "help" then .error (helpOn arguments)
  else .error .usage

def defaultRank : Nat := LogLevel.warn.rank

def parse (arguments : List String) : Except Refusal Request := do
  let (before, rest) ← Part.scan commonOptions true .empty arguments
  match rest with
  | [] => .error .usage
  | name :: arguments =>
    let (after, command) ← parseCommand name arguments
    if !before.isConsistent || !after.isConsistent then .error .usage
    else
      let louder := if after.verbose = 0 then before.louder else after.louder
      let quieter := if after.quiet = 0 then before.quieter else after.quieter
      pure {
        logRank := defaultRank + louder - quieter
        colour := (after.colour?.or before.colour?).getD true
        command }

end CommandLine

end Interaction
