import PrefixIntegral.Text.Blank

namespace PrefixIntegral.Decimal

structure Layout where
  /-- The least exponent of the leading digit that is written with a point alone. -/
  lowest : Int
  /-- The least exponent above it that is written out as an exponent. -/
  highest : Int
  /-- Whether a whole number ends in a point and a zero. -/
  keepsPoint : Bool
  /-- Whether a positive exponent carries a plus sign. -/
  showsPlus : Bool
  /-- The least number of digits of an exponent. -/
  exponentWidth : Nat

def signText (negative : Bool) : Text := if negative then ['-'] else []

def exponentText (showsPlus : Bool) (width : Nat) (exponent : Int) : Text :=
  let sign := if exponent < 0 then ['-'] else if showsPlus then ['+'] else []
  'e' :: sign ++ Text.padLeft width '0' (Nat.toDigits 10 exponent.natAbs)

def positional (keepsPoint : Bool) (digits : Text) (exponent : Int) : Text :=
  if exponent < 0 then
    ['0', '.'] ++ List.replicate (-exponent - 1).toNat '0' ++ digits
  else
    let lead := exponent.toNat + 1
    if digits.length ≤ lead then
      digits ++ List.replicate (lead - digits.length) '0' ++ (if keepsPoint then ['.', '0'] else [])
    else digits.take lead ++ '.' :: digits.drop lead

def scientific (showsPlus : Bool) (width : Nat) (digits : Text) (exponent : Int) : Text :=
  digits.take 1 ++ (if digits.length ≤ 1 then [] else '.' :: digits.drop 1) ++
    exponentText showsPlus width exponent

def Layout.write (layout : Layout) (negative : Bool) (digits : Text) (exponent : Int) : Text :=
  signText negative ++
    if layout.lowest ≤ exponent ∧ exponent < layout.highest then
      positional layout.keepsPoint digits exponent
    else scientific layout.showsPlus layout.exponentWidth digits exponent

/-- The layout of results: a point down to four zeros after it and up to sixteen digits before
it, and an exponent with sign and two digits beyond. -/
def Layout.result : Layout := ⟨-4, 16, true, true, 2⟩

def Layout.literal : Layout := ⟨-4, 16, true, false, 1⟩

def Layout.summary : Layout := ⟨-4, 12, false, true, 2⟩

end PrefixIntegral.Decimal
