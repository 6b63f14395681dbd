import PrefixIntegral.Decimal.Binary
import PrefixIntegral.Decimal.Layout

/-!
The shortest decimal text of a binary64 number: the fewest digits that read back as that very
number, and among those the nearest. The numbers that read back are those of an interval around
the value, its ends included when the significand is even. Grids of powers of ten are tried from
the coarsest on; on each, only the two neighbours of the value can be nearest.
-/

namespace PrefixIntegral.Decimal

-- Powers of natural numbers are the built-in ones, whatever else is imported.
attribute [local instance (high)] instPowNat

/-- The interval of reals that round to a value, and a cell of a decimal grid, all scaled to
whole numbers by one common factor. -/
structure Scale where
  value : Nat
  lower : Nat
  upper : Nat
  closed : Bool
  cell : Nat

/-- Scales a number and the grid of a power of ten. The lower end is half as far off as the
upper one where the value is the least of its binade. -/
def Scale.of (significand : Nat) (exponent : Int) (power : Int) : Scale :=
  let lowerGap := if significand = 2 ^ (52 : Nat) ∧ -1074 < exponent then 1 else 2
  let unit := 2 ^ (exponent - 2).toNat * 10 ^ (-power).toNat
  { value := 4 * significand * unit
    lower := (4 * significand - lowerGap) * unit
    upper := (4 * significand + 2) * unit
    closed := significand % 2 = 0
    cell := 10 ^ power.toNat * 2 ^ (2 - exponent).toNat }

def Scale.admits (s : Scale) (point : Nat) : Bool :=
  let place := point * s.cell
  if s.closed then s.lower ≤ place && place ≤ s.upper else s.lower < place && place < s.upper

def Scale.pick? (s : Scale) : Option Nat :=
  let below := s.value / s.cell
  let above := below + 1
  match s.admits below, s.admits above with
  | false, false => none
  | true, false => some below
  | false, true => some above
  | true, true =>
    let double := 2 * s.value
    let middle := (below + above) * s.cell
    if double < middle then some below
    else if middle < double then some above
    else some (if below % 2 = 0 then below else above)

/-- Tries grids from a power of ten downwards. Seventeen digits always read back, so a search
that starts near the leading digit ends before its steps do. -/
def shortestFrom (significand : Nat) (exponent : Int) : Nat → Int → Nat × Int
  | 0, power => (0, power)
  | steps + 1, power =>
    match (Scale.of significand exponent power).pick? with
    | some point => (point, power)
    | none => shortestFrom significand exponent steps (power - 1)

/-- The fewest digits that read back as a positive number, as a whole number, and the power of
ten of the last of them. -/
def shortest (significand : Nat) (exponent : Int) : Nat × Int :=
  shortestFrom significand exponent 24 ((ratio significand exponent).magnitude + 1)

def Layout.writeShortest (layout : Layout) (infinity : Text) (x : Float) : Text :=
  match parts x with
  | .nan => ['n', 'a', 'n']
  | .infinite negative => signText negative ++ infinity
  | .finite negative significand exponent =>
    if significand = 0 then layout.write negative ['0'] 0
    else
      let (point, power) := shortest significand exponent
      let digits := Nat.toDigits 10 point
      layout.write negative digits (power + digits.length - 1)

def exact (x : Float) : Text := Layout.result.writeShortest ['i', 'n', 'f'] x

end PrefixIntegral.Decimal
