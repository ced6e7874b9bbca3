import Interaction.Message.Incoming
import Interaction.Message.Lines
import Interaction.Supervisor.Context

/-!
This module contains supervisors. A supervisor hands the messages of a stream to a node, checks each
of them and all that the node writes against a protocol, and stops at the first fault.
-/

namespace Interaction

structure Supervisor (σ : Type) where
  node : Node σ
  protocol : Protocol
  names : Renaming
  handled : ∀ channel ∈ protocol.channels.inputs.keys, channel ∈ node.handlers

structure Progress (σ : Type) where
  state : σ
  session : Session
  line : Nat

def Activity (σ α : Type) : Type :=
  Progress σ → Except Failure α × Progress σ × Transcript

namespace Activity

variable {σ α β : Type}

instance : Monad (Activity σ) where
  pure a p := (.ok a, p, [])
  bind m f p :=
    match m p with
    | (.error e, p, t) => (.error e, p, t)
    | (.ok a, p, t) =>
      let (result, p, later) := f a p
      (result, p, t ++ later)

def fail (failure : Failure) : Activity σ α := fun p => (.error failure, p, [])

def progress : Activity σ (Progress σ) := fun p => (.ok p, p, [])

def setLine (line : Nat) : Activity σ Unit := fun p => (.ok (), { p with line }, [])

def setSession (session : Session) : Activity σ Unit := fun p => (.ok (), { p with session }, [])

def record (o : Occurrence) : Activity σ Unit := fun p => (.ok (), p, [o])

def call (ctx : Context) (call : Call) (callback : Callback σ Unit) :
    Activity σ (Except Failure Unit) := fun p =>
  let ((result, state), session, t) := ctx.perform (callback.run.run p.state) p.session
  (.ok result, { p with state, session }, .called call :: t)

def ofExcept (result : Except Failure α) : Activity σ α :=
  match result with
  | .ok a => pure a
  | .error failure => fail failure

end Activity

namespace Supervisor

variable {σ : Type}

def bind (node : Node σ) (protocol : Protocol) (names : Renaming) :
    Except Fault (Supervisor σ) :=
  match h : node.checkHandlers protocol with
  | .error fault => .error fault
  | .ok () => .ok { node, protocol, names, handled := Node.checkHandlers_eq_ok_iff.1 h }

def context (s : Supervisor σ) : Context := ⟨s.node.name, s.protocol, s.names⟩

def log (s : Supervisor σ) (level : LogLevel) (text : String) : Activity σ Unit :=
  .record (.logged ⟨level, .supervisor, s.node.name ++ ": " ++ text⟩)

def call (s : Supervisor σ) (call : Call) (callback : Callback σ Unit) : Activity σ Unit := do
  .ofExcept (← .call s.context call callback)

def stop {α : Type} (s : Supervisor σ) (fault : Fault) : Activity σ α := do
  s.log .error fault.message
  .fail (.ofFault fault)

def setConfig (s : Supervisor σ) (key : String) (value : Json) : Activity σ Unit := do
  let p ← .progress
  let (result, state) := s.node.setConfig key value p.state
  .record (.called (.setConfig key value))
  (fun p => (.ok (), { p with state }, []) : Activity σ Unit)
  match result with
  | .ok () => pure ()
  | .error fault => s.log .error fault.message
  s.call (.configured key value) (s.node.configured key value)

def deliver (s : Supervisor σ) (m : Message) : Activity σ Unit := do
  let channel := s.names.localName m.topic
  let event := Event.input channel
  match s.protocol.resolve event with
  | .error fault => s.stop fault
  | .ok _ =>
    let session := (← .progress).session
    let next := session.push event
    .setSession next
    if next.verdict = .unexpected then
      s.stop (.violation event session.expected)
    else
      s.log .debug ("received `" ++ channel ++ "`, now " ++ next.verdict.describe)
      match ← .call s.context (.receive channel m.data) (s.node.receive channel m.data) with
      | .ok () => pure ()
      | .error failure =>
        s.log .error
          ("while handling `" ++ channel ++ "`: " ++ ": ".intercalate failure.chain)
        .fail failure

def handle (s : Supervisor σ) (m : Message) : Activity σ Unit :=
  match Incoming.classify m with
  | .error fault => .fail (.ofFault fault)
  | .ok (.control (.setConfig key value)) => s.setConfig key value
  | .ok (.control (.unknown command)) =>
    s.log .warn ("ignoring control message `" ++ Control.topicStart ++ command ++ "`")
  | .ok (.channel m) => s.deliver m

def start (s : Supervisor σ) : Activity σ Unit := do
  s.call .init s.node.init
  s.log .info "starting to read"

def stopReading {α : Type} (s : Supervisor σ) (fault : Fault) : Activity σ α := do
  let number := (← .progress).line
  s.log .error ("line " ++ toString number ++ ": " ++ fault.message)
  .fail ((Failure.ofFault fault).within ("while reading line " ++ toString number))

def feed (s : Supervisor σ) (line : List UInt8) : Activity σ Unit := do
  .setLine (Lines.numberAfter (← .progress).line line)
  match Lines.parse line with
  | none => pure ()
  | some (.ok m) => s.handle m
  | some (.error fault) => s.stopReading fault

def feedAll (s : Supervisor σ) : List (List UInt8) → Activity σ Unit
  | [] => pure ()
  | line :: rest => do
    s.feed line
    s.feedAll rest

/-- Ends a run; the verdict is that of the events before the node is called for the last time. -/
def close (s : Supervisor σ) : Activity σ Verdict := do
  s.log .info "end of input"
  let session := (← .progress).session
  match session.verdict with
  | .unexpected => s.log .error ("protocol did not finish: " ++ Verdict.unexpectedReason)
  | .needMore =>
    s.log .warn ("input ended while the protocol expects more: " ++
      Fault.listing (session.expected.map Event.label))
  | .enough => pure ()
  s.call .finish s.node.finish
  pure session.verdict

def endReading (s : Supervisor σ) : Option Unreadable → Activity σ Verdict
  | none => s.close
  | some cause => s.stopReading (.unreadable cause)

def session (s : Supervisor σ) (lines : List (List UInt8)) (failure : Option Unreadable) :
    Activity σ Verdict := do
  s.start
  s.feedAll lines
  s.endReading failure

def initial (s : Supervisor σ) (state : σ) : Progress σ := ⟨state, s.protocol.newSession, 0⟩

/--
Runs the node on the lines of a stream. The result is the verdict at the end of the stream, or the
failure that ended the run; the state of the node and the transcript are there in both cases.
-/
def runOn (s : Supervisor σ) (state : σ) (lines : List (List UInt8))
    (failure : Option Unreadable) : Except Failure Verdict × σ × Transcript :=
  let (result, progress, transcript) := s.session lines failure (s.initial state)
  (result, progress.state, transcript)

def run (s : Supervisor σ) (state : σ) (input : List UInt8) :
    Except Failure Verdict × σ × Transcript :=
  s.runOn state (Lines.cut input) none

end Supervisor

end Interaction
