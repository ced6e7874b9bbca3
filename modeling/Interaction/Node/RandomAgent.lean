import Interaction.Node.Basic

/-!
This module contains a reference node that answers camera images with random motor commands. The
source of its numbers is a parameter.
-/

namespace Interaction

structure Generator (γ : Type) where
  next : γ → Binary64 × γ

namespace Generator

def modulus : Nat := UInt64.size

/-- The upper 53 bits of a linear congruence on 64 bits, as a fraction. -/
def linear : Generator Nat where
  next seed :=
    let seed := (6364136223846793005 * seed + 1442695040888963407) % modulus
    ((Binary64.round? false (seed / Nat.pow 2 11) (Nat.pow 2 53)).getD (.zero false), seed)

end Generator

namespace RandomAgent

def draw {γ : Type} (generator : Generator γ) : Callback γ Binary64 := do
  let (number, seed) := generator.next (← get)
  set seed
  pure number

def command {γ : Type} (generator : Generator γ) : Callback γ Unit := do
  let left ← draw generator
  let right ← draw generator
  Callback.write "pwm_commands"
    (.object [("motor_left", .ofBinary left), ("motor_right", .ofBinary right)])

end RandomAgent

open RandomAgent in
def Node.randomAgent {γ : Type} (generator : Generator γ) : Node γ where
  name := "random_agent"
  handlers := ["camera_image", "episode_start"]
  init := Callback.log "init()"
  receive channel data :=
    if channel = "episode_start" then Callback.log ("episode start: " ++ data.render)
    else if channel = "camera_image" then command generator
    else throw (.other ("random_agent cannot handle `" ++ channel ++ "`"))
  finish := Callback.log "finish()"

end Interaction
