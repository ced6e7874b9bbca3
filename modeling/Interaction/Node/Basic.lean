import Interaction.Protocol

/-!
This module contains nodes. A node is called when it starts, for each message on an input, when its
configuration was to be changed, and when it stops. What it does in a call is an effect: it asks to
write messages, learns for each whether it was accepted, and logs.
-/

namespace Interaction

/-- What a node does in a call, up to a result. -/
inductive Effect (α : Type) : Type where
  | done (result : α)
  | write (channel : String) (data : Json) (next : Except Fault Unit → Effect α)
  | log (text : String) (next : Effect α)

namespace Effect

variable {α β : Type}

def bind : Effect α → (α → Effect β) → Effect β
  | .done a, f => f a
  | .write channel data next, f => .write channel data fun answer => (next answer).bind f
  | .log text next, f => .log text (next.bind f)

instance : Monad Effect where
  pure := .done
  bind := bind

end Effect

/-- A call of a node with a state; the state also changes where the call fails. -/
abbrev Callback (σ : Type) : Type → Type := ExceptT Failure (StateT σ Effect)

namespace Callback

variable {σ : Type}

def lift {α : Type} (e : Effect α) : Callback σ α :=
  ExceptT.lift (StateT.lift e)

def tryWrite (channel : String) (data : Json) : Callback σ (Except Fault Unit) :=
  lift (.write channel data .done)

def write (channel : String) (data : Json) : Callback σ Unit := do
  match ← tryWrite channel data with
  | .ok () => pure ()
  | .error fault => throw (.ofFault fault)

def log (text : String) : Callback σ Unit := lift (.log text (.done ()))

end Callback

structure Node (σ : Type) where
  name : String
  handlers : List String
  init : Callback σ Unit := pure ()
  receive : String → Json → Callback σ Unit
  finish : Callback σ Unit := pure ()
  config : σ → Option Json := fun _ => none
  setConfig : String → Json → σ → Except Fault Unit × σ :=
    fun key _ state => (.error (.badConfig key (.noConfiguration name)), state)
  configured : String → Json → Callback σ Unit := fun _ _ => pure ()

namespace Node

variable {σ : Type}

def describe (node : Node σ) (state : σ) : Json :=
  let name := ("name", Json.string node.name)
  match node.config state with
  | none => .object [name]
  | some config => .object [("config", config), name]

def checkHandlers (node : Node σ) (protocol : Protocol) : Except Fault Unit :=
  match protocol.channels.inputs.keys.find? (!node.handlers.contains ·) with
  | none => .ok ()
  | some channel => .error (.missingHandler node.name channel)

theorem checkHandlers_eq_ok_iff {node : Node σ} {protocol : Protocol} :
    node.checkHandlers protocol = .ok () ↔
      ∀ channel ∈ protocol.channels.inputs.keys, channel ∈ node.handlers := by
  unfold checkHandlers
  split
  · next none => simpa using none
  · next channel found =>
    have missing := List.find?_some found
    have mem := List.mem_of_find?_eq_some found
    simp only [reduceCtorEq, false_iff]
    intro handled
    simp [handled channel mem] at missing

end Node

end Interaction
