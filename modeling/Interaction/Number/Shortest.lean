import Interaction.Number.Binary64

/-!
This module contains the decimal text of a binary number: the fewest digits that read back as the
number, and of these the nearest, an even last digit on a tie.
-/

namespace Interaction

namespace Binary64

/--
The place of a number on the grid of multiples of a unit, times four: the number itself and the ends
of the interval that rounds to it. The ends belong to it iff the significand is even.
-/
structure Interval where
  low : Nat
  middle : Nat
  high : Nat
  closed : Bool

def interval (x : Binary64) : Interval where
  low :=
    if x.significand = Nat.pow 2 52 ∧ leastExponent < x.exponent then 4 * x.significand - 1
    else 4 * x.significand - 2
  middle := 4 * x.significand
  high := 4 * x.significand + 2
  closed := x.significand % 2 == 0

def Interval.contains (i : Interval) (unit n : Nat) : Bool :=
  if i.closed then i.low * unit ≤ n && n ≤ i.high * unit
  else i.low * unit < n && n < i.high * unit

/--
Looks for a multiple of 10 ^ `exponent` that reads back as the number: one of its two neighbours on
that grid, and of both the nearer.
-/
def onGrid? (x : Binary64) (exponent : Int) : Option Nat :=
  let i := x.interval
  let (unit, step) : Nat × Nat :=
    match x.exponent - 2, exponent with
    | .ofNat a, .ofNat b => (Nat.pow 2 a, Nat.pow 10 b)
    | .ofNat a, .negSucc b => (Nat.pow 2 a * Nat.pow 10 (b + 1), 1)
    | .negSucc a, .ofNat b => (1, Nat.pow 10 b * Nat.pow 2 (a + 1))
    | .negSucc a, .negSucc b => (Nat.pow 10 (b + 1), Nat.pow 2 (a + 1))
  let below := i.middle * unit / step
  let above := below + 1
  let toBelow := i.middle * unit - below * step
  let toAbove := above * step - i.middle * unit
  match i.contains unit (below * step), i.contains unit (above * step) with
  | true, true =>
    some (if toBelow < toAbove ∨ (toBelow = toAbove ∧ below % 2 = 0) then below else above)
  | true, false => some below
  | false, true => some above
  | false, false => none

def firstOnGrid (x : Binary64) (exponent : Int) : Nat → Nat × Int
  | 0 => (x.significand, exponent)
  | tries + 1 =>
    match x.onGrid? exponent with
    | some digits => (digits, exponent)
    | none => x.firstOnGrid (exponent - 1) tries

def shortest (x : Binary64) : Nat × Int :=
  let bits : Int := (x.significand.log2 : Int) + x.exponent + 1
  x.firstOnGrid (bits * 30103 / 100000 + 1) 24

def withoutZeros (digits : List Char) (exponent : Int) : List Char × Int :=
  let zeros := (digits.reverse.takeWhile (· == '0')).length
  (digits.take (digits.length - zeros), exponent + zeros)

def positionalFrom : Int := -5

def positionalTo : Int := 16

def layOut (digits : List Char) (exponent : Int) : List Char :=
  let point : Int := digits.length + exponent
  if 0 ≤ exponent ∧ point ≤ positionalTo then
    digits ++ List.replicate exponent.toNat '0' ++ ['.', '0']
  else if 0 < point ∧ point ≤ positionalTo then
    digits.take point.toNat ++ '.' :: digits.drop point.toNat
  else if positionalFrom < point ∧ point ≤ 0 then
    '0' :: '.' :: (List.replicate (-point).toNat '0' ++ digits)
  else
    let fraction := if digits.length = 1 then [] else '.' :: digits.drop 1
    let sign := if 0 < point then '+' else '-'
    digits.take 1 ++ fraction ++ 'e' :: sign :: (toString (point - 1).natAbs).toList

def toText (x : Binary64) : String :=
  let magnitude :=
    if x.isZero then ['0', '.', '0']
    else
      let (digits, exponent) := x.shortest
      let (digits, exponent) := withoutZeros (toString digits).toList exponent
      layOut digits exponent
  String.ofList (if x.negative then '-' :: magnitude else magnitude)

end Binary64

end Interaction
