import Interaction.Json.Reader

/-!
This module contains the grammar of JSON texts. A text spells a tree, which keeps how strings and
numbers are written and the order of the members of objects; white space is left out. What a tree
means is another matter: there are strings without a text and numbers without a value.
-/

namespace Interaction

def Number.int64? : Number → Option Int
  | .integer i => if Int64.minValue.toInt ≤ i ∧ i ≤ Int64.maxValue.toInt then some i else none
  | .binary _ => none

namespace Json

def hexNumber? (digits : List Char) : Option Nat :=
  match digits.mapM Reader.hexValue? with
  | some [a, b, d, e] => some (((a * 16 + b) * 16 + d) * 16 + e)
  | _ => none

inductive Piece where
  | plain (c : Char) (ok : c ≠ '"' ∧ c ≠ '\\' ∧ 0x20 ≤ c.toNat)
  | short (letter c : Char) (ok : Reader.shortEscape? letter = some c)
  | code (digits : List Char) (n : Nat) (ok : hexNumber? digits = some n)

namespace Piece

def text : Piece → List Char
  | plain c _ => [c]
  | short letter _ _ => ['\\', letter]
  | code digits _ _ => '\\' :: 'u' :: digits

def quoted (pieces : List Piece) : List Char :=
  '"' :: (pieces.flatMap text ++ ['"'])

def pair (n m : Nat) : Char := Char.ofNat (0x10000 + (n - 0xD800) * 0x400 + (m - 0xDC00))

/-- The characters that pieces stand for. Surrogates stand for one in pairs only. -/
def chars? : List Piece → Option (List Char)
  | [] => some []
  | plain c _ :: rest => (chars? rest).map (c :: ·)
  | short _ c _ :: rest => (chars? rest).map (c :: ·)
  | code _ n _ :: rest =>
    if Reader.isTrailingSurrogate n then none
    else if Reader.isLeadingSurrogate n then
      match rest with
      | code _ m _ :: rest =>
        if Reader.isTrailingSurrogate m then (chars? rest).map (pair n m :: ·) else none
      | _ => none
    else (chars? rest).map (Char.ofNat n :: ·)

def string? (pieces : List Piece) : Option String := (chars? pieces).map String.ofList

end Piece

structure Digits where
  chars : List Char
  ne_nil : chars ≠ []
  isDigit : ∀ c ∈ chars, c.isDigit = true

structure Exponent where
  marker : Char
  sign : List Char
  digits : Digits
  isMarker : marker = 'e' ∨ marker = 'E'
  isSign : sign = [] ∨ sign = ['+'] ∨ sign = ['-']

structure Literal where
  negative : Bool
  whole : Digits
  fraction : Option Digits
  exponent : Option Exponent
  noZeros : whole.chars.head? = some '0' → whole.chars = ['0']

namespace Literal

def fractionText : Option Digits → List Char
  | none => []
  | some digits => '.' :: digits.chars

def exponentText : Option Exponent → List Char
  | none => []
  | some e => e.marker :: (e.sign ++ e.digits.chars)

def unsigned (l : Literal) : List Char :=
  l.whole.chars ++ (fractionText l.fraction ++ exponentText l.exponent)

def text (l : Literal) : List Char :=
  if l.negative then '-' :: l.unsigned else l.unsigned

def scaled? (negative : Bool) (significand : Nat) (exponent : Int) :
    Option Exponent → Option Number
  | none => (Binary64.ofDecimal? negative significand exponent).map .binary
  | some e =>
    let (value, dropped) := Reader.absorb Reader.exponentLimit 0 e.digits.chars
    if dropped = [] then
      (Binary64.ofDecimal? negative significand
        (if e.sign = ['-'] then exponent - value else exponent + value)).map .binary
    else if significand ≠ 0 ∧ e.sign ≠ ['-'] then none
    else some (.binary (.zero negative))

def whole? (negative : Bool) (significand : Nat) : Option Number :=
  if negative = false then some (.integer significand)
  else if significand = 0 then some (.binary (.zero true))
  else if significand ≤ Nat.pow 2 63 then some (.integer (-significand))
  else scaled? true significand 0 none

def fractional? (negative : Bool) (significand : Nat) (exponent : Int) (digits : Digits)
    (e : Option Exponent) : Option Number :=
  let (value, left) := Reader.absorb Reader.significandLimit significand digits.chars
  scaled? negative value (exponent - (digits.chars.length - left.length)) e

/--
The number of a text. It is an integer if it is written without a fraction and an exponent, and fits
into 64 bits. Of other numbers the digits count that fit into 64 bits; what is too large is none.
-/
def number? (l : Literal) : Option Number :=
  let (significand, dropped) := Reader.absorb Reader.significandLimit 0 l.whole.chars
  match l.fraction, l.exponent with
  | some digits, e => fractional? l.negative significand dropped.length digits e
  | none, some e => scaled? l.negative significand dropped.length (some e)
  | none, none =>
    if dropped = [] then whole? l.negative significand
    else scaled? l.negative significand dropped.length none

end Literal

inductive Tree where
  | null
  | bool (value : Bool)
  | number (literal : Literal)
  | string (pieces : List Piece)
  | array (items : List Tree)
  | object (members : List (List Piece × Tree))

def Gap (t : List Char) : Prop := ∀ c ∈ t, Reader.isSpace c = true

inductive Lead : Bool → List Char → Prop where
  | first {gap : List Char} (isGap : Gap gap) : Lead true gap
  | next {gap gap' : List Char} (isGap : Gap gap) (isGap' : Gap gap') :
    Lead false (gap ++ ',' :: gap')

inductive Row {α : Type} (spells : α → List Char → Prop) : Bool → List α → List Char → Prop where
  | nil {first : Bool} {gap : List Char} (isGap : Gap gap) : Row spells first [] gap
  | cons {first : Bool} {a : α} {as : List α} {lead text rest : List Char}
    (isLead : Lead first lead) (item : spells a text) (others : Row spells false as rest) :
    Row spells first (a :: as) (lead ++ (text ++ rest))

inductive Entry {α : Type} (spells : α → List Char → Prop) :
    List Piece × α → List Char → Prop where
  | mk {key : List Piece} {a : α} {gap gap' text : List Char} (isGap : Gap gap)
    (isGap' : Gap gap') (value : spells a text) :
    Entry spells (key, a) (Piece.quoted key ++ (gap ++ ':' :: (gap' ++ text)))

namespace Tree

inductive Spells : Tree → List Char → Prop where
  | null : Spells null ['n', 'u', 'l', 'l']
  | yes : Spells (bool true) ['t', 'r', 'u', 'e']
  | no : Spells (bool false) ['f', 'a', 'l', 's', 'e']
  | number (l : Literal) : Spells (number l) l.text
  | string (pieces : List Piece) : Spells (string pieces) (Piece.quoted pieces)
  | array {items : List Tree} {row : List Char} (inner : Row Spells true items row) :
    Spells (array items) ('[' :: (row ++ [']']))
  | object {members : List (List Piece × Tree)} {row : List Char}
    (inner : Row (Entry Spells) true members row) :
    Spells (object members) ('\x7b' :: (row ++ ['\x7d']))

mutual

def depth : Tree → Nat
  | array items => depthOfItems items + 1
  | object members => depthOfMembers members + 1
  | _ => 0

def depthOfItems : List Tree → Nat
  | [] => 0
  | item :: rest => max (depth item) (depthOfItems rest)

def depthOfMembers : List (List Piece × Tree) → Nat
  | [] => 0
  | (_, value) :: rest => max (depth value) (depthOfMembers rest)

end

mutual

/-- The value of a tree. Of members with equal keys the last one counts. -/
def value? : Tree → Option Json
  | null => some .null
  | bool value => some (.bool value)
  | number l => l.number?.map .number
  | string pieces => (Piece.string? pieces).map .string
  | array items => (valueOfItems? items).map .array
  | object members => (valueOfMembers? members).map fun ms => .object (Reader.sortMembers ms)

def valueOfItems? : List Tree → Option (List Json)
  | [] => some []
  | item :: rest => do
    let value ← value? item
    let others ← valueOfItems? rest
    return value :: others

def valueOfMembers? : List (List Piece × Tree) → Option (List (String × Json))
  | [] => some []
  | (key, value) :: rest => do
    let key ← Piece.string? key
    let value ← value? value
    let others ← valueOfMembers? rest
    return (key, value) :: others

end

def valueWithin? (levels : Nat) (tree : Tree) : Option Json :=
  if tree.depth ≤ levels then tree.value? else none

def text? : Tree → Option String
  | string pieces => Piece.string? pieces
  | _ => none

def number? : Tree → Option Number
  | number l => l.number?
  | _ => none

def int64? (tree : Tree) : Option Int := tree.number?.bind Number.int64?

def nullable? {α : Type} (mean : Tree → Option α) : Tree → Option (Option α)
  | null => some none
  | tree => (mean tree).map some

def member? {α : Type} (mean : Tree → Option α) (member : List Piece × Tree) :
    Option (String × α) := do
  let key ← Piece.string? member.1
  let value ← mean member.2
  return (key, value)

def table? {α : Type} (mean : Tree → Option α) : Tree → Option (Table α)
  | object members => (members.mapM (member? mean)).map Table.ofList
  | _ => none

def members? (_ : List String) : Tree → Option (List (String × Tree))
  | object members => members.mapM (member? some)
  | _ => none

def fields? (names : List String) : Tree → Option (List (String × Tree))
  | object members => members.mapM (member? some)
  | array items => if items.length ≤ names.length then some (names.zip items) else none
  | _ => none

def optional? {α : Type} (mean : Tree → Option α) (name : String) (fields : List (String × Tree)) :
    Option (Option α) :=
  match fields.filter (·.1 == name) with
  | [] => some none
  | [(_, tree)] => (mean tree).map some
  | _ => none

def required? {α : Type} (mean : Tree → Option α) (name : String) (fields : List (String × Tree)) :
    Option α :=
  (optional? mean name fields).join

end Tree

end Json

end Interaction
