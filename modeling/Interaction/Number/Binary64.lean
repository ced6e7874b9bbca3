/-!
This module contains the finite binary numbers of 64 bits, and rounding to them: a quotient of
natural numbers becomes the nearest such number, a tie goes to the even significand.
-/

namespace Interaction

/--
The number ± `significand` · 2 ^ `exponent`. The significand is below 2 ^ 53 and the exponent from
-1074 to 971; above the least exponent the significand is at least 2 ^ 52.
-/
structure Binary64 where
  negative : Bool
  significand : Nat
  exponent : Int
  deriving DecidableEq, Repr

namespace Binary64

def leastExponent : Int := -1074

def greatestExponent : Int := 971

def zero (negative : Bool) : Binary64 := ⟨negative, 0, leastExponent⟩

def isZero (x : Binary64) : Bool := x.significand == 0

def unscale (num den : Nat) : Int → Nat × Nat
  | .ofNat e => (num, den * Nat.pow 2 e)
  | .negSucc e => (num * Nat.pow 2 (e + 1), den)

def nearest (num den : Nat) : Nat :=
  let quotient := num / den
  let rest := num % den
  if den < 2 * rest ∨ (2 * rest = den ∧ quotient % 2 = 1) then quotient + 1 else quotient

def exponentOf (num den : Nat) : Int :=
  let guess := max ((num.log2 : Int) - den.log2 - 52) leastExponent
  let (n, d) := unscale num den guess
  if n < Nat.pow 2 52 * d ∧ leastExponent < guess then guess - 1 else guess

def round? (negative : Bool) (num den : Nat) : Option Binary64 :=
  if num = 0 then some (zero negative)
  else
    let exponent := exponentOf num den
    let (n, d) := unscale num den exponent
    let significand := nearest n d
    let rounded : Binary64 :=
      if significand = Nat.pow 2 53 then ⟨negative, Nat.pow 2 52, exponent + 1⟩
      else ⟨negative, significand, exponent⟩
    if greatestExponent < rounded.exponent then none else some rounded

def ratio (x : Binary64) : Nat × Nat :=
  match x.exponent with
  | .ofNat e => (x.significand * Nat.pow 2 e, 1)
  | .negSucc e => (x.significand, Nat.pow 2 (e + 1))

def mul? (x y : Binary64) : Option Binary64 :=
  let (a, b) := x.ratio
  let (c, d) := y.ratio
  round? (x.negative != y.negative) (a * c) (b * d)

def div? (x y : Binary64) : Option Binary64 :=
  let (a, b) := x.ratio
  let (c, d) := y.ratio
  round? (x.negative != y.negative) (a * d) (b * c)

def greatestPower : Nat := 308

def powerOfTen (n : Nat) : Binary64 :=
  (round? false (Nat.pow 10 n) 1).getD (zero false)

def divPower? (x : Binary64) (n : Nat) : Option Binary64 :=
  if n ≤ greatestPower then x.div? (powerOfTen n)
  else if x.isZero then some x
  else
    (x.div? (powerOfTen greatestPower)).bind fun y => y.divPower? (n - greatestPower)
termination_by n
decreasing_by
  have : greatestPower = 308 := rfl
  omega

/--
The number of a decimal `significand` · 10 ^ `exponent`: the significand is rounded, and then
multiplied with or divided by a power of ten. There is none if it is too large.
-/
def ofDecimal? (negative : Bool) (significand : Nat) (exponent : Int) : Option Binary64 :=
  match round? negative significand 1 with
  | none => none
  | some x =>
    match exponent with
    | .ofNat e =>
      if e ≤ greatestPower then x.mul? (powerOfTen e)
      else if x.isZero then some x
      else none
    | .negSucc e => x.divPower? (e + 1)

end Binary64

end Interaction
