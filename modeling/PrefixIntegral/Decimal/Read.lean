import PrefixIntegral.Text.Numeral

namespace PrefixIntegral.Decimal

structure Numeral where
  negative : Bool
  digits : Nat
  exponent : Int
  deriving DecidableEq, Repr

def reach : Int := 400

/-- The nearest binary64 number, a half going to the even neighbour. The exponent of a decimal
numeral has no bound, so one that is far out of range is settled by its size alone. -/
def Numeral.toFloat (n : Numeral) : Float :=
  let size : Float :=
    if n.digits = 0 then 0
    else if reach < n.exponent then 1 / 0
    else if (Nat.log2 n.digits + 1 : Nat) * 30103 / 100000 + 1 + n.exponent < -reach then 0
    else Float.ofScientific n.digits (n.exponent < 0) n.exponent.natAbs
  if n.negative then -size else size

def wordValue? (word : Text) : Option Float :=
  if word = ['n', 'a', 'n'] then some (0 / 0)
  else if word = ['i', 'n', 'f'] || word = ['i', 'n', 'f', 'i', 'n', 'i', 't', 'y'] then some (1 / 0)
  else none

def readExponent? : Text → Option Int
  | [] => some 0
  | c :: rest =>
    if c = 'e' || c = 'E' then
      let (negative, digits) := Text.splitSign rest
      if digits.isEmpty || !digits.all Text.isDigit then none
      else some (if negative then -Text.numeralValue digits else Text.numeralValue digits)
    else none

def readUnsigned? (negative : Bool) (t : Text) : Option Numeral :=
  let whole := t.takeWhile Text.isDigit
  let rest := t.dropWhile Text.isDigit
  let (fraction, rest) := match rest with
    | '.' :: after => (after.takeWhile Text.isDigit, after.dropWhile Text.isDigit)
    | _ => ([], rest)
  if whole.isEmpty && fraction.isEmpty then none
  else (readExponent? rest).map fun exponent =>
    ⟨negative, Text.numeralValue (whole ++ fraction), exponent - fraction.length⟩

def readNumber? (t : Text) : Option Float :=
  match Text.dropUnderscores false (Text.trimBoth Text.isPadding t) with
  | none => none
  | some plain =>
    let (negative, body) := Text.splitSign plain
    match wordValue? (body.map Char.toLower) with
    | some value => some (if negative then -value else value)
    | none => (readUnsigned? negative body).map Numeral.toFloat

end PrefixIntegral.Decimal
