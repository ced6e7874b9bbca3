import Interaction.CommandLine.Basic

/-!
This module contains the program. A run goes on line by line, so that a node answers each message
before the next one is read.
-/

namespace Interaction

namespace CommandLine

def manual : String :=
  "Runs pipeline nodes under protocol supervision\n\n" ++
    "Usage: interaction [OPTIONS] <COMMAND>\n\n" ++
    "Commands:\n" ++
    "  run --node <NODE> [--input <PATH>] [--output <PATH>] [--translate <NAMES>]\n" ++
    "  describe-node --node <NODE>\n" ++
    "  describe-protocol <NAME> [--file <PROTOCOLS_FILE>] [--dot]\n\n" ++
    "Nodes: image-filter, image-source, random-agent\n\n" ++
    "Options:\n" ++
    "  -v, --verbose           log more\n" ++
    "  -q, --quiet             log less\n" ++
    "      --color <WHEN>      auto, always or never\n" ++
    "  -h, --help              print this text\n" ++
    "  -V, --version           print the version\n"

def refuse (refusal : Refusal) : IO UInt32 := do
  match refusal with
  | .help => IO.print manual
  | .version => IO.println "interaction 0.1.0"
  | .usage => IO.eprint manual
  pure refusal.code.toUInt32

def printOutcome (o : Outcome) : IO UInt32 := do
  IO.print o.output
  IO.eprint o.errorText
  pure o.code.toUInt32

def causeOf : IO.Error → Unreadable
  | .permissionDenied .. => .denied
  | .inappropriateType _ 20 _ => .notDirectory
  | .inappropriateType .. => .directory
  | .invalidArgument _ 36 _ => .longName
  | _ => .notFound

def attempt {α : Type} (action : IO α) : IO (Except Unreadable α) := do
  match ← action.toBaseIO with
  | .ok a => pure (.ok a)
  | .error e => pure (.error (causeOf e))

def readBytes (path : String) : IO (Except Unreadable (List UInt8)) :=
  attempt do pure (← (← IO.FS.Handle.mk path .read).readBinToEnd).toList

def openOutput (path : String) : IO (Except Unreadable IO.FS.Stream) :=
  attempt do pure (.ofHandle (← IO.FS.Handle.mk path .write))

partial def openInput (path : String) (rank : Nat) : IO (Except Unreadable IO.FS.Stream) := do
  match ← attempt do pure (.ofHandle (← IO.FS.Handle.mk path .read)) with
  | .ok stream => pure (.ok stream)
  | .error .denied => pure (.error .denied)
  | .error _ =>
    let entry : LogEntry :=
      ⟨.info, .supervisor, "waiting for file " ++ path ++ " to be created"⟩
    IO.eprint (Transcript.logText [.logged entry] rank)
    IO.sleep 1000
    openInput path rank

partial def readLine (input : IO.FS.Stream) (read : Array UInt8) : IO (List UInt8) := do
  let bytes := (← input.read 1).data
  let read := read ++ bytes
  if bytes.isEmpty || bytes == #[10] then pure read.toList else readLine input read

def perform {σ α : Type} (output : IO.FS.Stream) (rank : Nat) (activity : Activity σ α)
    (p : Progress σ) : IO (Except Failure α × Progress σ) := do
  let (result, p, transcript) := activity p
  output.putStr transcript.output
  output.flush
  IO.eprint (transcript.logText rank)
  pure (result, p)

partial def followInput {σ : Type} (s : Supervisor σ) (input output : IO.FS.Stream) (rank : Nat)
    (p : Progress σ) : IO (Except Failure Verdict) := do
  match ← attempt (readLine input #[]) with
  | .error cause => pure (← perform output rank (s.endReading (some cause)) p).1
  | .ok [] => pure (← perform output rank (s.endReading none) p).1
  | .ok line =>
    match ← perform output rank (s.feed line) p with
    | (.ok (), p) => followInput s input output rank p
    | (.error failure, _) => pure (.error failure)

def runOnStreams {σ : Type} (kind : ReferenceNode) (node : Node σ) (state : σ)
    (input output names : Option String) (rank : Nat) : IO UInt32 := do
  match superviseReference kind node names with
  | .error fault => printOutcome { failure := some (.ofFault fault) }
  | .ok s =>
    let opening : Transcript := (output.map fun path => .logged (openingEntry path)).toList
    IO.eprint (opening.logText rank)
    let output ← output.elim (.ok <$> IO.getStdout) openOutput
    match output with
    | .error cause => printOutcome { failure := some (.ofFault (.unreadable cause)) }
    | .ok output =>
      match ← input.elim (.ok <$> IO.getStdin) (openInput · rank) with
      | .error cause => printOutcome { failure := some (.ofFault (.unreadable cause)) }
      | .ok input =>
        IO.eprint (Transcript.logText [.logged readingEntry] rank)
        let result ← match ← perform output rank s.start (s.initial state) with
          | (.error failure, _) => pure (.error failure)
          | (.ok (), p) => followInput s input output rank p
        printOutcome { failure := runFailure? result }

def runProgram (arguments : List String) : IO UInt32 := do
  match parse arguments with
  | .error refusal => refuse refusal
  | .ok request =>
    match request.command with
    | .run kind input output names =>
      let seed ← IO.rand 0 (UInt64.size - 1)
      kind.use seed fun node state =>
        runOnStreams kind node state input output names request.logRank
    | .describeProtocol _ (some path) _ =>
      let content ← readBytes path
      printOutcome (execute request ⟨fun _ => content, fun _ => none, (· = ·), [], 0⟩)
    | _ =>
      let nothing : Surroundings := ⟨fun _ => .error .notFound, fun _ => none, (· = ·), [], 0⟩
      printOutcome (execute request nothing)

end CommandLine

end Interaction

def main (arguments : List String) : IO UInt32 :=
  Interaction.CommandLine.runProgram arguments
