/-!
The parts of a binary64 number. A finite one is `significand * 2 ^ exponent` with a sign, the
significand below `2 ^ 53`; everything that is printed about a number is computed from these
parts in exact whole-number arithmetic.
-/

namespace PrefixIntegral.Decimal

-- Powers of natural numbers are the built-in ones, whatever else is imported.
attribute [local instance (high)] instPowNat

inductive Parts where
  | nan
  | infinite (negative : Bool)
  | finite (negative : Bool) (significand : Nat) (exponent : Int)
  deriving DecidableEq, Repr

def parts (x : Float) : Parts :=
  let bits := x.toBits.toNat
  let negative := bits / 2 ^ (63 : Nat) == 1
  let scale : Nat := bits / 2 ^ (52 : Nat) % 2 ^ (11 : Nat)
  let fraction := bits % 2 ^ (52 : Nat)
  if scale = 2047 then
    if fraction = 0 then .infinite negative else .nan
  else if scale = 0 then .finite negative fraction (-1074)
  else .finite negative (fraction + 2 ^ (52 : Nat)) ((scale : Int) - 1075)

def signBit (x : Float) : Bool := x.toBits.toNat / 2 ^ (63 : Nat) == 1

structure Ratio where
  num : Nat
  den : Nat
  deriving DecidableEq, Repr

def ratio (significand : Nat) (exponent : Int) : Ratio :=
  ⟨significand * 2 ^ exponent.toNat, 2 ^ (-exponent).toNat⟩

def Ratio.scaleDown (r : Ratio) (power : Int) : Ratio :=
  ⟨r.num * 10 ^ (-power).toNat, r.den * 10 ^ power.toNat⟩

def Ratio.round (r : Ratio) : Nat :=
  let whole := r.num / r.den
  let double := 2 * (r.num % r.den)
  if double < r.den then whole
  else if r.den < double then whole + 1
  else whole + whole % 2

def Ratio.reaches (r : Ratio) (power : Int) : Bool :=
  let scaled := r.scaleDown power
  scaled.den ≤ scaled.num

/-- The exponent of the leading decimal digit of a positive ratio. The binary logarithms place
it within one of an estimate, and two comparisons settle which it is. -/
def Ratio.magnitude (r : Ratio) : Int :=
  let guess := ((Nat.log2 r.num : Int) - Nat.log2 r.den) * 30103 / 100000
  if r.reaches (guess + 1) then guess + 1
  else if r.reaches guess then guess
  else guess - 1

def whole? (x : Float) : Option Int :=
  match parts x with
  | .finite negative significand exponent =>
    let r := ratio significand exponent
    if r.num % r.den = 0 then
      let value : Int := (r.num / r.den : Nat)
      some (if negative then -value else value)
    else none
  | _ => none

end PrefixIntegral.Decimal
