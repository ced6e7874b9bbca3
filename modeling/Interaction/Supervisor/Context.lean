import Interaction.Node.Basic
import Interaction.Renaming
import Interaction.Supervisor.Transcript

/-!
This module contains what a node may do in a call. Everything it asks to write is checked against
the protocol before it goes out; a write that is refused as an event still counts as an event of the
session.
-/

namespace Interaction

structure Context where
  node : String
  protocol : Protocol
  names : Renaming

namespace Context

def write (ctx : Context) (channel : String) (data : Json) (session : Session) :
    Except Fault Unit × Session × Transcript :=
  match ctx.protocol.resolve (.output channel) with
  | .error fault => (.error fault, session, [.refused channel fault])
  | .ok _ =>
    let next := session.push (.output channel)
    if next.verdict = .unexpected then
      let fault := .violation (.output channel) session.expected
      (.error fault, next, [.refused channel fault])
    else
      (.ok (), next, [.sent channel (.new (ctx.names.topic channel) data)])

def perform {α : Type} (ctx : Context) : Effect α → Session → α × Session × Transcript
  | .done a, session => (a, session, [])
  | .write channel data next, session =>
    let (answer, session, now) := ctx.write channel data session
    let (a, session, later) := ctx.perform (next answer) session
    (a, session, now ++ later)
  | .log text next, session =>
    let entry := ⟨.info, .node, ctx.node ++ ": " ++ text⟩
    let (a, session, later) := ctx.perform next session
    (a, session, .logged entry :: later)

end Context

end Interaction
