import Interaction.Fault
import Interaction.Message.Basic

/-!
This module contains transcripts: what happened in a run of a node, in order. The lines a run writes
and the entries it logs are parts of its transcript.
-/

namespace Interaction

inductive LogLevel where
  | error
  | warn
  | info
  | debug
  deriving DecidableEq, Repr

namespace LogLevel

def word : LogLevel → String
  | .error => "ERROR"
  | .warn => "WARN"
  | .info => "INFO"
  | .debug => "DEBUG"

def rank : LogLevel → Nat
  | .error => 1
  | .warn => 2
  | .info => 3
  | .debug => 4

end LogLevel

inductive LogSource where
  | program
  | supervisor
  | node
  deriving DecidableEq, Repr

def LogSource.word : LogSource → String
  | .program => "node_protocols"
  | .supervisor => "node_protocols::wrapper"
  | .node => "node_protocols::node"

structure LogEntry where
  level : LogLevel
  source : LogSource
  text : String
  deriving DecidableEq, Repr

inductive Call where
  | init
  | receive (channel : String) (data : Json)
  | setConfig (key : String) (value : Json)
  | configured (key : String) (value : Json)
  | finish

inductive Occurrence where
  | called (call : Call)
  | sent (channel : String) (message : Message)
  | refused (channel : String) (fault : Fault)
  | logged (entry : LogEntry)

abbrev Transcript : Type := List Occurrence

namespace Transcript

def messages (t : Transcript) : List Message :=
  t.filterMap fun
    | .sent _ message => some message
    | _ => none

def output (t : Transcript) : String :=
  String.join (t.messages.map Message.line)

def log (t : Transcript) : List LogEntry :=
  t.filterMap fun
    | .logged entry => some entry
    | _ => none

def calls (t : Transcript) : List Call :=
  t.filterMap fun
    | .called call => some call
    | _ => none

def events (t : Transcript) : List Event :=
  t.filterMap fun
    | .called (.receive channel _) => some (.input channel)
    | .sent channel _ => some (.output channel)
    | _ => none

end Transcript

end Interaction
