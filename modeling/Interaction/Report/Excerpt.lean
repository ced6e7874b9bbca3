import Interaction.Report.Ink
import Interaction.Text.Blank
import Interaction.Text.Position
import Interaction.Text.Width

/-!
This module contains the excerpts of a text that show where a report points to. Offsets and spans
count bytes; what is shown is laid out by the width of the characters.
-/

namespace Interaction

namespace Excerpt

structure Line where
  number : Nat
  start : Nat
  chars : List Char
  deriving DecidableEq, Repr

def numberedFrom (number start : Nat) : List (List Char) → List Line
  | [] => []
  | chars :: rest =>
    ⟨number, start, chars⟩ :: numberedFrom (number + 1) (start + Text.byteSize chars) rest

def numbered (text : String) : List Line := numberedFrom 1 0 (Text.lines text.toList)

def lineAt (lines : List Line) (offset : Nat) : Line :=
  ((lines.filter (·.start ≤ offset)).getLast?).getD ⟨1, 0, []⟩

def Line.shown (line : Line) : List Char :=
  (line.chars.reverse.dropWhile fun c => c == '\n' || c == '\r' || c.toNat == 0).reverse

def Line.column (line : Line) (offset : Nat) : Nat :=
  1 + (Text.splitAtByte (offset - line.start) line.chars).1.length

structure Glyph where
  char : Char
  offset : Nat
  width : Nat

def tabWidth : Nat := 4

def glyphsFrom (offset column : Nat) : List Char → List Glyph
  | [] => []
  | c :: rest =>
    let width := if c = '\t' then tabWidth - column % tabWidth else Text.width c
    ⟨c, offset, width⟩ :: glyphsFrom (offset + c.utf8Size) (column + width) rest

def Line.glyphs (line : Line) : List Glyph := glyphsFrom 0 0 line.shown

def Glyph.stop (g : Glyph) : Nat := g.offset + g.char.utf8Size

def Glyph.text (g : Glyph) : String :=
  if g.char = '\t' then String.ofList (List.replicate g.width ' ') else g.char.toString

def source (style : Style) (labelled : Glyph → Bool) : Bool → List Glyph → Ink
  | inside, [] => if inside then [.plain] else []
  | inside, g :: rest =>
    let change : Ink :=
      match labelled g, inside with
      | true, false => [.style style]
      | false, true => [.plain]
      | _, _ => []
    change ++ .text g.text :: source style labelled (labelled g) rest

def spaces (n : Nat) : String := String.ofList (List.replicate n ' ')

def dashes (n : Nat) : String := String.ofList (List.replicate n '─')

def carets (n : Nat) : String := String.ofList (List.replicate n '^')

def widthBefore (offset : Nat) (glyphs : List Glyph) : Nat :=
  (glyphs.filter (·.offset < offset)).foldr (·.width + ·) 0

structure Subject where
  severity : Severity
  message : String
  name : String
  lines : List Line
  start : Nat
  stop : Nat

namespace Subject

def marginWidth (last : Line) : Nat := (toString last.number).length

def numberMargin (last line : Line) : Ink :=
  let number := toString line.number
  let padded := spaces (marginWidth last - number.length) ++ number
  Ink.styled .margin padded ++ .text " " :: Ink.styled .margin "│"

def signMargin (last : Line) (sign : String) : Ink :=
  .text (spaces (marginWidth last) ++ " ") :: Ink.styled .margin sign

def header (s : Subject) : Ink :=
  [.style (.severity s.severity), .text s.severity.word, .style .message,
    .text (": " ++ s.message), .plain, .text "\n"]

def place (s : Subject) (first last : Line) : Ink :=
  signMargin last "┌─" ++
    [.text (" " ++ s.name ++ ":" ++ toString first.number ++ ":" ++
      toString (first.column s.start) ++ "\n")]

def inLabel (s : Subject) (text : String) : Ink := Ink.styled (.label s.severity) text

def spacedMessage (s : Subject) : String :=
  if s.message.isEmpty then "" else " " ++ s.message

def caretLine (style : Style) (start stop : Nat) : Bool → List Glyph → Ink
  | inside, [] => if inside then [.plain] else []
  | inside, g :: rest =>
    let labelled := max start g.offset < min stop g.stop
    let change : Ink :=
      match decide labelled, inside with
      | true, false => [.style style]
      | false, true => [.plain]
      | _, _ => []
    let sign :=
      if labelled then carets g.width
      else if g.offset < stop then spaces g.width
      else ""
    change ++ .text sign :: caretLine style start stop (decide labelled) rest

def oneLine (s : Subject) (line : Line) : Ink :=
  let start := s.start - line.start
  let stop := max (s.stop - line.start) (start + 1)
  let style := Style.label s.severity
  let glyphs := line.glyphs
  let labelled (g : Glyph) : Bool := max start g.offset < min stop g.stop
  let lineEnd : Glyph := ⟨Char.ofNat 0, Text.byteSize line.shown, 1⟩
  let message : Ink := if s.message.isEmpty then [] else .text " " :: s.inLabel s.message
  signMargin line "│" ++ .text "\n" ::
    (numberMargin line line ++ .text " " :: source style labelled false glyphs ++ .text "\n" ::
      (signMargin line "│" ++ .text " " ::
        caretLine style start stop false (glyphs ++ [lineEnd]) ++ message ++ [.text "\n"]))

def firstLine (s : Subject) (first last : Line) : Ink :=
  let start := s.start - first.start
  let style := Style.label s.severity
  let shown := first.shown
  let indent := Text.byteSize (shown.takeWhile Text.isBlank)
  let code := source style (fun g => start ≤ g.offset) false first.glyphs
  if start ≤ indent then
    numberMargin last first ++ .text " " :: s.inLabel "╭" ++ .text " " :: code ++ [.text "\n"]
  else
    numberMargin last first ++ .text "   " :: code ++ .text "\n" ::
      (signMargin last "│" ++ .text " " :: s.inLabel "╭" ++
        s.inLabel (dashes (widthBefore (start + 1) first.glyphs) ++ "^") ++ [.text "\n"])

def innerLine (s : Subject) (last line : Line) : Ink :=
  numberMargin last line ++ .text " " :: s.inLabel "│" ++ .text " " ::
    source (.label s.severity) (fun _ => true) false line.glyphs ++ [.text "\n"]

def innerLines (s : Subject) (first last : Line) (lines : List Line) : Ink :=
  let near (line : Line) : Bool :=
    line.number - first.number ≤ 3 || last.number - line.number ≤ 1
  let hidden := lines.filter (!near ·)
  if hidden.length ≤ 1 then lines.flatMap (s.innerLine last)
  else
    let top := lines.filter fun line => line.number - first.number ≤ 3
    let bottom := lines.filter fun line =>
      !(line.number - first.number ≤ 3) && last.number - line.number ≤ 1
    top.flatMap (s.innerLine last) ++
      (signMargin last "·" ++ .text " " :: s.inLabel "│" ++ [.text "\n"]) ++
      bottom.flatMap (s.innerLine last)

def lastLine (s : Subject) (last : Line) : Ink :=
  let stop := s.stop - last.start
  numberMargin last last ++ .text " " :: s.inLabel "│" ++ .text " " ::
    source (.label s.severity) (fun g => g.stop ≤ stop) false last.glyphs ++ .text "\n" ::
    (signMargin last "│" ++ .text " " :: s.inLabel "╰" ++
      s.inLabel (dashes (widthBefore stop last.glyphs) ++ "^" ++ s.spacedMessage) ++ [.text "\n"])

def ink (s : Subject) : Ink :=
  let first := lineAt s.lines s.start
  let last := lineAt s.lines s.stop
  let between := s.lines.filter fun l => first.number < l.number && l.number < last.number
  s.header ++ s.place first last ++
    (if first.number = last.number then s.oneLine first
    else
      signMargin last "│" ++ .text "  \n" ::
        (s.firstLine first last ++ s.innerLines first last between ++ s.lastLine last)) ++
    [.text "\n"]

end Subject

end Excerpt

end Interaction
