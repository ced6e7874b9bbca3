/-!
This module contains texts in colour for a terminal, as series of marks. Without colour only the
texts among the marks are left.
-/

namespace Interaction

inductive Severity where
  | error
  | warning
  deriving DecidableEq, Repr

namespace Severity

def word : Severity → String
  | .error => "error"
  | .warning => "warning"

def title : Severity → String
  | .error => "Error"
  | .warning => "Warning"

def colour : Severity → String
  | .error => "31"
  | .warning => "33"

def brightColour : Severity → String
  | .error => "38;5;9"
  | .warning => "38;5;11"

end Severity

inductive Style where
  | severity (severity : Severity)
  | message
  | margin
  | label (severity : Severity)
  | title (severity : Severity)
  deriving DecidableEq, Repr

inductive Mark where
  | text (text : String)
  | style (style : Style)
  | plain
  deriving DecidableEq, Repr

abbrev Ink : Type := List Mark

namespace Ink

def sequence (code : String) : String := "\x1b[" ++ code ++ "m"

def plainCode : String := sequence "0"

def styleCode : Style → String
  | .severity s => plainCode ++ sequence "1" ++ sequence s.brightColour
  | .message => plainCode ++ sequence "1"
  | .margin => plainCode ++ sequence "34"
  | .label s => plainCode ++ sequence s.colour
  | .title s => plainCode ++ sequence "1" ++ sequence s.colour

def markText (colour : Bool) : Mark → String
  | .text text => text
  | .style style => if colour then styleCode style else ""
  | .plain => if colour then plainCode else ""

def render (colour : Bool) (ink : Ink) : String :=
  String.join (ink.map (markText colour))

def styled (style : Style) (text : String) : Ink := [.style style, .text text, .plain]

end Ink

end Interaction
