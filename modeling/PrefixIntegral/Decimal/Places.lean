import PrefixIntegral.Decimal.Binary
import PrefixIntegral.Decimal.Layout

namespace PrefixIntegral.Decimal

-- Powers of natural numbers are the built-in ones, whatever else is imported.
attribute [local instance (high)] instPowNat

def ofFinite (write : Bool → Ratio → Text) (x : Float) : Text :=
  match parts x with
  | .nan => ['n', 'a', 'n']
  | .infinite negative => signText negative ++ ['i', 'n', 'f']
  | .finite negative significand exponent => write negative (ratio significand exponent)

def fixed (places : Nat) : Float → Text :=
  ofFinite fun negative r =>
    let digits := Text.padLeft (places + 1) '0' (Nat.toDigits 10 (r.scaleDown (-places)).round)
    let lead := digits.length - places
    signText negative ++ digits.take lead ++ (if places = 0 then [] else '.' :: digits.drop lead)

def significantDigits (count : Nat) (r : Ratio) : Text × Int :=
  if r.num = 0 then (List.replicate count '0', 0)
  else
    let lead := r.magnitude
    let rounded := (r.scaleDown (lead - (count : Int) + 1)).round
    if rounded = 10 ^ count then (Nat.toDigits 10 (10 ^ (count - 1)), lead + 1)
    else (Nat.toDigits 10 rounded, lead)

def exponential (places : Nat) : Float → Text :=
  ofFinite fun negative r =>
    let (digits, lead) := significantDigits (places + 1) r
    signText negative ++ scientific true 2 digits lead

def general (count : Nat) : Float → Text :=
  ofFinite fun negative r =>
    let (digits, lead) := significantDigits count r
    let kept := (digits.reverse.dropWhile (· = '0')).reverse
    Layout.summary.write negative (if kept.isEmpty then ['0'] else kept) lead

def groupThousands (digits : Text) : Text :=
  (digits.reverse.zipIdx.flatMap fun (c, i) => if i ≠ 0 ∧ i % 3 = 0 then [',', c] else [c]).reverse

def grouped : Float → Text :=
  ofFinite fun negative r => signText negative ++ groupThousands (Nat.toDigits 10 r.round)

end PrefixIntegral.Decimal
