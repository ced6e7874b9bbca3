import Interaction.Node.ImageFilter
import Interaction.Node.ImageSource
import Interaction.Node.RandomAgent

/-!
This module contains the choice between the reference nodes.
-/

namespace Interaction

inductive ReferenceNode where
  | imageFilter
  | imageSource
  | randomAgent
  deriving DecidableEq, Repr

namespace ReferenceNode

def ofWord? (word : String) : Option ReferenceNode :=
  if word = "image-filter" then some .imageFilter
  else if word = "image-source" then some .imageSource
  else if word = "random-agent" then some .randomAgent
  else none

def protocolName : ReferenceNode → String
  | .imageFilter => "image_filter"
  | .imageSource => "image_source"
  | .randomAgent => "agent_jpg_pwm"

def use {β : Type} (kind : ReferenceNode) (seed : Nat) (f : {σ : Type} → Node σ → σ → β) : β :=
  match kind with
  | .imageFilter => f Node.imageFilter ()
  | .imageSource => f Node.imageSource (ImageSource.State.new ImageSource.Config.default)
  | .randomAgent => f (Node.randomAgent Generator.linear) seed

end ReferenceNode

end Interaction
