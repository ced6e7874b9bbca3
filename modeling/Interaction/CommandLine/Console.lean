import Interaction.Supervisor.Transcript
import Interaction.Text.Blank
import Interaction.Text.Terminal

/-!
This module contains what the program prints besides its output: the lines of log entries, and the
report of the failure it ends with.
-/

namespace Interaction

namespace Text

def hang (indent : String) (lines : List (List Char)) : String :=
  ("\n" ++ indent).intercalate (lines.map String.ofList)

end Text

/--
The line of a log entry. Further lines of its text are indented. A control sequence that does not
end takes the line feed with it.
-/
def LogEntry.line (e : LogEntry) : String :=
  let level := e.level.word ++ String.ofList (List.replicate (5 - e.level.word.length) ' ')
  let text := Text.hang "    " (Text.splitAt '\n' e.text.toList)
  let line := "[" ++ level ++ " " ++ e.source.word ++ "] " ++ text ++ "\n"
  String.ofList (Terminal.plain line.toList)

def Transcript.logText (t : Transcript) (rank : Nat) : String :=
  String.join ((t.log.filter (·.level.rank ≤ rank)).map LogEntry.line)

namespace Failure

def causeText (mark indent : String) (text : String) : String :=
  mark ++ Text.hang indent (Text.splitAt '\n' text.toList) ++ "\n"

def causeMark (index : Nat) : String :=
  let digits := toString index
  String.ofList (List.replicate (5 - digits.length) ' ') ++ digits ++ ": "

def causesText : List String → String
  | [] => ""
  | [cause] => "\nCaused by:\n" ++ causeText "    " "    " cause
  | causes =>
    "\nCaused by:\n" ++
      String.join (causes.zipIdx.map fun (cause, index) =>
        causeText (causeMark index) "       " cause)

def report (f : Failure) : String :=
  "Error: " ++ f.message ++ "\n" ++ causesText f.chain.tail

end Failure

end Interaction
