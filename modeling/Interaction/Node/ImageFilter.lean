import Interaction.Node.Basic

/-!
This module contains a reference node that sends every message it receives back on the output of the
same name.
-/

namespace Interaction

def Node.imageFilter : Node Unit where
  name := "dummy_image_filter"
  handlers := ["episode_start", "image"]
  init := Callback.log "init()"
  receive channel data := Callback.write channel data
  finish := Callback.log "finish()"

end Interaction
