import Interaction.Parsing.Expectation
import Interaction.Text.Position

/-!
This module contains readers of texts. A reader begins at a cursor; it either fails, or yields a
value and the cursor where it stopped. In both cases it says where in the text it failed furthest,
also when it failed on a way that it then left for another.
-/

namespace Interaction

structure Cursor where
  offset : Nat
  rest : List Char
  left : Nat
  left_eq : left = rest.length
  deriving DecidableEq, Repr

namespace Cursor

def ofText (text : List Char) : Cursor := ⟨0, text, text.length, rfl⟩

def next (c : Cursor) : Cursor :=
  match h : c.rest with
  | [] => c
  | x :: rest => ⟨c.offset + x.utf8Size, rest, c.left - 1, by simp [c.left_eq, h]⟩

def forward (count : Nat) (c : Cursor) : Cursor :=
  ⟨c.offset + Text.byteSize (c.rest.take count), c.rest.drop count, c.left - count,
    by simp [c.left_eq]⟩

def takeWhile (p : Char → Bool) (c : Cursor) : List Char × Cursor :=
  let taken := c.rest.takeWhile p
  (taken, c.forward taken.length)

def literal? (text : List Char) (c : Cursor) : Option Cursor :=
  if text.isPrefixOf c.rest then some (c.forward text.length) else none

end Cursor

structure Attempt (α : Type) where
  result : Option (α × Cursor)
  furthest : Furthest

def Parser (α : Type) : Type := Cursor → Attempt α

namespace Parser

variable {α β : Type}

instance : Monad Parser where
  pure a c := ⟨some (a, c), .start⟩
  bind p f c :=
    match p c with
    | ⟨none, furthest⟩ => ⟨none, furthest⟩
    | ⟨some (a, c'), furthest⟩ =>
      let last := f a c'
      ⟨last.result, furthest.join last.furthest⟩

def fail : Parser α := fun _ => ⟨none, .start⟩

def orElse (p q : Parser α) : Parser α := fun c =>
  match p c with
  | ⟨some found, furthest⟩ => ⟨some found, furthest⟩
  | ⟨none, furthest⟩ =>
    let last := q c
    ⟨last.result, furthest.join last.furthest⟩

instance : OrElse (Parser α) where
  orElse p q := orElse p (q ())

def optional (p : Parser α) : Parser (Option α) :=
  orElse (some <$> p) (pure none)

def expecting (x : Expectation) (p : Parser α) : Parser α := fun c =>
  match p c with
  | ⟨some found, furthest⟩ => ⟨some found, furthest⟩
  | ⟨none, furthest⟩ => ⟨none, furthest.named x c.offset⟩

def offset : Parser Nat := fun c => ⟨some (c.offset, c), .start⟩

def literal (text : String) : Parser Unit := fun c =>
  ⟨(c.literal? text.toList).map ((), ·), .start⟩

def takeWhile (p : Char → Bool) : Parser String := fun c =>
  let (taken, c') := c.takeWhile p
  ⟨some (String.ofList taken, c'), .start⟩

def takeWhile1 (p : Char → Bool) : Parser String := do
  let taken ← takeWhile p
  if taken.isEmpty then fail else pure taken

def notBefore (p : Char → Bool) : Parser Unit := fun c =>
  ⟨if c.rest.head?.any p then none else some ((), c), .start⟩

def endOfText : Parser Unit := fun c =>
  ⟨if c.rest.isEmpty then some ((), c) else none, .start⟩

def many (p : Parser α) (c : Cursor) : Attempt (List α) :=
  match p c with
  | ⟨none, furthest⟩ => ⟨some ([], c), furthest⟩
  | ⟨some (a, c'), furthest⟩ =>
    if c'.left < c.left then
      let last := many p c'
      ⟨last.result.map fun (as, c'') => (a :: as, c''), furthest.join last.furthest⟩
    else
      ⟨some ([a], c'), furthest⟩
termination_by c.left

/-- Reads a text that contains texts of its own kind. The inner ones must begin further on. -/
def nested (p : Parser α → Parser α) (c : Cursor) : Attempt α :=
  p (fun c' => if c'.left < c.left then nested p c' else fail c') c
termination_by c.left

def isSpace (c : Char) : Bool := c == ' ' || c == '\t' || c == '\r' || c == '\n'

def isNameChar (c : Char) : Bool := c.isAlphanum || c == '_'

def blank : Parser Unit :=
  (do let _ ← takeWhile1 isSpace) <|> (do literal "//"; let _ ← takeWhile (· != '\n'))

def layout : Parser Unit := do
  let _ ← many blank

def name : Parser String := expecting .name (takeWhile1 isNameChar)

def repeated (p : Parser α) : Parser (List α) :=
  (do let first ← p
      let others ← many (do layout; p)
      pure (first :: others)) <|> pure []

end Parser

end Interaction
