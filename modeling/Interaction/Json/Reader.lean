import Interaction.Json.Error
import Interaction.Parsing.Basic

/-!
This module contains the reader of JSON texts of one line. It works from left to right and stops at
the first error, which it reports at a column: the number of bytes passed, or one more if the error
is that of the byte that comes next.
-/

namespace Interaction

namespace Json

abbrev Reader (α : Type) : Type := StateT Cursor (Except Error) α

namespace Reader

variable {α σ : Type}

def failPassed (cause : Cause) : Reader α := fun c => .error ⟨cause, some c.offset⟩

def failAhead (cause : Cause) : Reader α := fun c =>
  .error ⟨cause, some (if c.rest.isEmpty then c.offset else c.offset + 1)⟩

def peek : Reader (Option Char) := fun c => .ok (c.rest.head?, c)

def advance : Reader Unit := fun c => .ok ((), c.next)

def takeWhile (p : Char → Bool) : Reader (List Char) := fun c => .ok (c.takeWhile p)

/--
Collects what `item` yields, behind what was found before, until it yields nothing. An item that
stops where it began is the last one.
-/
def collectAfter (item : Bool → Reader (Option α)) (found : List α) (c : Cursor) :
    Except Error (List α × Cursor) :=
  match item found.isEmpty c with
  | .error e => .error e
  | .ok (none, c') => .ok (found.reverse, c')
  | .ok (some a, c') =>
    if c'.left < c.left then collectAfter item (a :: found) c'
    else .ok ((a :: found).reverse, c')
termination_by c.left

def collect (item : Bool → Reader (Option α)) : Reader (List α) := collectAfter item []

def iterate (step : Bool → σ → Reader (σ × Bool)) (first : Bool) (s : σ) (c : Cursor) :
    Except Error (σ × Cursor) :=
  match step first s c with
  | .error e => .error e
  | .ok ((s', more), c') =>
    if more ∧ c'.left < c.left then iterate step false s' c'
    else .ok (s', c')
termination_by c.left

def nested (p : Reader α → Reader α) (c : Cursor) : Except Error (α × Cursor) :=
  p (fun c' =>
    if c'.left < c.left then nested p c' else failAhead .expectedValue c') c
termination_by c.left

def isSpace (c : Char) : Bool := c == ' ' || c == '\n' || c == '\t' || c == '\r'

def peekToken : Reader (Option Char) := do
  let _ ← takeWhile isSpace
  peek

def letters : List Char → Reader Unit
  | [] => pure ()
  | x :: rest => do
    match ← peek with
    | none => failAhead .endInValue
    | some y =>
      if y = x then
        advance
        letters rest
      else
        failAhead .expectedWord

def digitValue (c : Char) : Nat := c.toNat - '0'.toNat

def absorb (limit value : Nat) : List Char → Nat × List Char
  | [] => (value, [])
  | d :: rest =>
    let next := 10 * value + digitValue d
    if limit < next then (value, d :: rest) else absorb limit next rest

def significandLimit : Nat := UInt64.size - 1

def exponentLimit : Nat := Nat.pow 2 31 - 1

def decimal (negative : Bool) (significand : Nat) (exponent : Int) : Reader Number :=
  match Binary64.ofDecimal? negative significand exponent with
  | some x => pure (.binary x)
  | none => failPassed .numberTooLarge

def exponentPart (negative : Bool) (significand : Nat) (exponent : Int) : Reader Number := do
  let sign ← peek
  if sign = some '+' ∨ sign = some '-' then advance
  match ← peek with
  | none => failAhead .endInValue
  | some c =>
    if !c.isDigit then failAhead .invalidNumber
    else
      let digits ← takeWhile Char.isDigit
      let (value, dropped) := absorb exponentLimit 0 digits
      if dropped.isEmpty then
        decimal negative significand
          (if sign = some '-' then exponent - value else exponent + value)
      else if significand ≠ 0 ∧ sign ≠ some '-' then
        fun c => .error ⟨.numberTooLarge, some (c.offset + 1 - dropped.length)⟩
      else
        pure (.binary (.zero negative))

def afterFraction (negative : Bool) (significand : Nat) (exponent : Int) : Reader Number := do
  match ← peek with
  | some 'e' => advance; exponentPart negative significand exponent
  | some 'E' => advance; exponentPart negative significand exponent
  | _ => decimal negative significand exponent

def fractionPart (negative : Bool) (significand : Nat) (exponent : Int) : Reader Number := do
  let digits ← takeWhile Char.isDigit
  if digits.isEmpty then
    match ← peek with
    | none => failAhead .endInValue
    | some _ => failAhead .invalidNumber
  else
    let (value, dropped) := absorb significandLimit significand digits
    afterFraction negative value (exponent - (digits.length - dropped.length))

def wholeNumber (negative : Bool) (significand : Nat) : Reader Number :=
  if !negative then pure (.integer significand)
  else if significand = 0 then pure (.binary (.zero true))
  else if significand ≤ Nat.pow 2 63 then pure (.integer (-significand))
  else decimal true significand 0

def number (negative : Bool) : Reader Number := do
  match ← peek with
  | none => failAhead .endInValue
  | some c =>
    if !c.isDigit then failAhead .invalidNumber
    else
      let digits ← (if c = '0' then do advance; pure ['0'] else takeWhile Char.isDigit)
      let (significand, dropped) := absorb significandLimit 0 digits
      match ← peek with
      | some '.' => advance; fractionPart negative significand dropped.length
      | some 'e' => advance; exponentPart negative significand dropped.length
      | some 'E' => advance; exponentPart negative significand dropped.length
      | some d =>
        if d.isDigit then failAhead .invalidNumber
        else if dropped.isEmpty then wholeNumber negative significand
        else decimal negative significand dropped.length
      | none =>
        if dropped.isEmpty then wholeNumber negative significand
        else decimal negative significand dropped.length

def hexValue? (c : Char) : Option Nat :=
  if c.isDigit then some (c.toNat - '0'.toNat)
  else if 'a' ≤ c ∧ c ≤ 'f' then some (c.toNat - 'a'.toNat + 10)
  else if 'A' ≤ c ∧ c ≤ 'F' then some (c.toNat - 'A'.toNat + 10)
  else none

def hex4 : Reader Nat := fun c =>
  let next := c.rest.take 4
  if Text.byteSize next < 4 then
    .error ⟨.endInString, some (c.offset + Text.byteSize next)⟩
  else
    match next.mapM hexValue? with
    | some [a, b, d, e] => .ok (((a * 16 + b) * 16 + d) * 16 + e, c.forward 4)
    | _ => .error ⟨.invalidEscape, some (c.offset + 4)⟩

def isLeadingSurrogate (n : Nat) : Bool := 0xD800 ≤ n && n ≤ 0xDBFF

def isTrailingSurrogate (n : Nat) : Bool := 0xDC00 ≤ n && n ≤ 0xDFFF

def afterSurrogate (x : Char) : Reader Unit := do
  match ← peek with
  | none => failAhead .endInString
  | some y => if y = x then advance else failAhead .endOfHexEscape

def unicodeEscape : Reader Char := do
  let n ← hex4
  if isTrailingSurrogate n then failPassed .loneSurrogate
  else if isLeadingSurrogate n then
    afterSurrogate '\\'
    afterSurrogate 'u'
    let m ← hex4
    if isTrailingSurrogate m then
      pure (Char.ofNat (0x10000 + (n - 0xD800) * 0x400 + (m - 0xDC00)))
    else
      failPassed .loneSurrogate
  else
    pure (Char.ofNat n)

def shortEscape? (c : Char) : Option Char :=
  match c with
  | '"' => some '"'
  | '\\' => some '\\'
  | '/' => some '/'
  | 'b' => some '\x08'
  | 'f' => some '\x0c'
  | 'n' => some '\n'
  | 'r' => some '\r'
  | 't' => some '\t'
  | _ => none

def escape : Reader Char := do
  match ← peek with
  | none => failAhead .endInString
  | some 'u' => advance; unicodeEscape
  | some c =>
    match shortEscape? c with
    | some x => advance; pure x
    | none => failAhead .invalidEscape

def stringItem : Reader (Option Char) := do
  match ← peek with
  | none => failAhead .endInString
  | some '"' => advance; pure none
  | some '\\' => advance; some <$> escape
  | some c =>
    if c.toNat < 0x20 then failAhead .controlCharacter
    else
      advance
      pure (some c)

def stringRest : Reader String := do
  let chars ← collect fun _ => stringItem
  pure (String.ofList chars)

def opening {β : Type} (levels : Nat) (inner : Nat → Reader β) : Reader β :=
  match levels with
  | 0 => failAhead .tooDeep
  | levels + 1 => do
    advance
    inner levels

def nextItem (first : Bool) : Reader Bool := do
  match ← peekToken with
  | none => failAhead .endInList
  | some ']' => pure false
  | some c =>
    if first then pure true
    else if c = ',' then
      advance
      match ← peekToken with
      | none => failAhead .endInValue
      | some ']' => failAhead .trailingComma
      | some _ => pure true
    else
      failAhead .expectedListEnd

def nextKey (first : Bool) : Reader (Option String) := do
  match ← peekToken with
  | none => failAhead .endInObject
  | some '\x7d' => pure none
  | some c =>
    if first then
      if c = '"' then
        advance
        some <$> stringRest
      else
        failAhead .keyNotString
    else if c = ',' then
      advance
      match ← peekToken with
      | none => failAhead .endInValue
      | some '"' => advance; some <$> stringRest
      | some '\x7d' => failAhead .trailingComma
      | some _ => failAhead .keyNotString
    else
      failAhead .expectedObjectEnd

def colon : Reader Unit := do
  match ← peekToken with
  | none => failAhead .endInObject
  | some ':' => advance
  | some _ => failAhead .expectedColon

def items (item : Reader α) : Reader (List α) := do
  let found ← collect fun first => do
    if ← nextItem first then some <$> item else pure none
  advance
  pure found

def members (value : Reader α) : Reader (List (String × α)) := do
  let found ← collect fun first => do
    match ← nextKey first with
    | none => pure none
    | some key =>
      colon
      let v ← value
      pure (some (key, v))
  advance
  pure found

def sortMembers (found : List (String × α)) : List (String × α) :=
  found.foldl (fun sorted member => Table.insertEntry member.1 member.2 sorted) []

def value (levels : Nat) : Reader Json := do
  match ← peekToken with
  | none => failAhead .endInValue
  | some 'n' => advance; letters ['u', 'l', 'l']; pure .null
  | some 't' => advance; letters ['r', 'u', 'e']; pure (.bool true)
  | some 'f' => advance; letters ['a', 'l', 's', 'e']; pure (.bool false)
  | some '-' => advance; Json.number <$> number true
  | some '"' => advance; Json.string <$> stringRest
  | some '[' =>
    match levels with
    | 0 => failAhead .tooDeep
    | levels + 1 => advance; Json.array <$> items (value levels)
  | some '\x7b' =>
    match levels with
    | 0 => failAhead .tooDeep
    | levels + 1 => do
      advance
      let found ← members (value levels)
      pure (.object (sortMembers found))
  | some c =>
    if c.isDigit then Json.number <$> number false else failAhead .expectedValue

def ignoredItem : Reader (Option Unit) := do
  match ← peek with
  | none => failAhead .endInString
  | some '"' => advance; pure none
  | some '\\' =>
    advance
    match ← peek with
    | none => failAhead .endInString
    | some 'u' =>
      advance
      let _ ← hex4
      pure (some ())
    | some c =>
      if (shortEscape? c).isSome then
        advance
        pure (some ())
      else
        failAhead .invalidEscape
  | some c =>
    if c.toNat < 0x20 then failPassed .controlCharacter
    else
      advance
      pure (some ())

def ignoredString : Reader Unit := do
  let _ ← collect fun _ => ignoredItem

def ignoredExponent : Reader Unit := do
  advance
  let sign ← peek
  if sign = some '+' ∨ sign = some '-' then advance
  let digits ← takeWhile Char.isDigit
  if digits.isEmpty then failAhead .invalidNumber

def ignoredNumber : Reader Unit := do
  let first ← peek
  let digits ← (if first = some '0' then do advance; pure ['0'] else takeWhile Char.isDigit)
  if digits.isEmpty then failAhead .invalidNumber
  if (← peek).any Char.isDigit then failAhead .invalidNumber
  if (← peek) = some '.' then
    advance
    let fraction ← takeWhile Char.isDigit
    if fraction.isEmpty then failAhead .invalidNumber
  let next ← peek
  if next = some 'e' ∨ next = some 'E' then ignoredExponent

def ignoredEnd (close : Char) (first : Bool) (atEnd unclosed : Cause) : Reader Bool := do
  match ← peekToken with
  | none => failAhead atEnd
  | some c =>
    if c = close then
      advance
      pure true
    else if first then pure false
    else if c = ',' then
      advance
      pure false
    else failAhead unclosed

def ignoredKey : Reader Unit := do
  match ← peekToken with
  | none => failAhead .endInObject
  | some '"' => advance
  | some _ => failAhead .keyNotString
  ignoredString
  colon

/--
Passes a value that is of no interest. Its numbers may be of any size, its strings may hold lone
surrogates, and its containers may be nested at any depth.
-/
def ignored : Reader Unit := nested fun inner => do
  match ← peekToken with
  | none => failAhead .endInValue
  | some 'n' => advance; letters ['u', 'l', 'l']
  | some 't' => advance; letters ['r', 'u', 'e']
  | some 'f' => advance; letters ['a', 'l', 's', 'e']
  | some '-' => advance; ignoredNumber
  | some '"' => advance; ignoredString
  | some '[' =>
    advance
    let _ ← collect fun first => do
      if ← ignoredEnd ']' first .endInList .expectedListEnd then pure none
      else some <$> inner
  | some '\x7b' =>
    advance
    let _ ← collect fun first => do
      if ← ignoredEnd '\x7d' first .endInObject .expectedObjectEnd then pure none
      else
        ignoredKey
        some <$> inner
  | some c => if c.isDigit then ignoredNumber else failAhead .expectedValue

def mismatch (expected : String) : Reader α := do
  match ← peek with
  | some 'n' => advance; letters ['u', 'l', 'l']; failPassed (.invalidType .null expected)
  | some 't' => advance; letters ['r', 'u', 'e']; failPassed (.invalidType (.bool true) expected)
  | some 'f' =>
    advance
    letters ['a', 'l', 's', 'e']
    failPassed (.invalidType (.bool false) expected)
  | some '-' =>
    advance
    let n ← number true
    failPassed (.invalidType (.number n) expected)
  | some '"' =>
    advance
    let text ← stringRest
    failPassed (.invalidType (.string text) expected)
  | some '[' => failPassed (.invalidType .sequence expected)
  | some '\x7b' => failPassed (.invalidType .map expected)
  | some c =>
    if c.isDigit then
      let n ← number false
      failPassed (.invalidType (.number n) expected)
    else
      failAhead .expectedValue
  | none => failAhead .expectedValue

def string : Reader String := do
  match ← peekToken with
  | none => failAhead .endInValue
  | some '"' => advance; stringRest
  | some _ => mismatch "a string"

def int64 : Reader Int := do
  let n ← (do
    match ← peekToken with
    | none => failAhead .endInValue
    | some '-' => advance; number true
    | some c => if c.isDigit then number false else mismatch "i64")
  match n with
  | .integer i =>
    if Int64.minValue.toInt ≤ i ∧ i ≤ Int64.maxValue.toInt then pure i
    else failPassed (.invalidInteger i "i64")
  | .binary x => failPassed (.invalidType (.number (.binary x)) "i64")

def nullable (value : Reader α) : Reader (Option α) := do
  match ← peekToken with
  | some 'n' => advance; letters ['u', 'l', 'l']; pure none
  | _ => some <$> value

def table (value : Nat → Reader α) (levels : Nat) : Reader (Table α) := do
  match ← peekToken with
  | none => failAhead .endInValue
  | some '\x7b' => opening levels fun levels => do
    let found ← members (value levels)
    pure (Table.ofList found)
  | some _ => mismatch "a map"

def run (r : Reader α) (text : List Char) : Except Error α :=
  (do
    let a ← r
    match ← peekToken with
    | none => pure a
    | some _ => failAhead .trailingCharacters : Reader α).run' (Cursor.ofText text)

end Reader

def maxLevels : Nat := 127

end Json

end Interaction
