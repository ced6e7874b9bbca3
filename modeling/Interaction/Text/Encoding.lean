/-!
This module contains texts as bytes in UTF-8, and why the bytes of a file or a stream may not be
there as a text.
-/

namespace Interaction

inductive Unreadable where
  | notFound
  | denied
  | notDirectory
  | directory
  | longName
  | endOfPath
  | notText
  deriving DecidableEq, Repr

def Unreadable.message : Unreadable → String
  | .notFound => "No such file or directory (os error 2)"
  | .denied => "Permission denied (os error 13)"
  | .notDirectory => "Not a directory (os error 20)"
  | .directory => "Is a directory (os error 21)"
  | .longName => "File name too long (os error 36)"
  | .endOfPath => "file name contained an unexpected NUL byte"
  | .notText => "stream did not contain valid UTF-8"

namespace Text

def decode? (bytes : List UInt8) : Option String :=
  String.fromUTF8? ⟨bytes.toArray⟩

def decode (bytes : List UInt8) : Except Unreadable String :=
  match decode? bytes with
  | some text => .ok text
  | none => .error .notText

end Text

end Interaction
