import PrefixIntegral.Decimal.Read
import PrefixIntegral.Decimal.Shortest

/-!
Numbers as formulas write them. A literal has an optional minus; then a whole part without
needless zeros, an optional fraction and an optional exponent without leading zeros; or a point
and a fraction. Blanks, plus signs and underscores are not part of a literal.
-/

namespace PrefixIntegral.Literal

open Decimal (Numeral)

/-- Splits off the whole part: a single zero, or digits of which the first is an ASCII digit
other than zero. The digits after the first may be of any script. -/
def splitWhole? : Text → Option (Text × Text)
  | [] => none
  | c :: rest =>
    if c = '0' then some ([c], rest)
    else if '1' ≤ c ∧ c ≤ '9' then
      some (c :: rest.takeWhile Text.isDigit, rest.dropWhile Text.isDigit)
    else none

def splitFraction : Text → Text × Text
  | '.' :: rest => (rest.takeWhile Text.isDigit, rest.dropWhile Text.isDigit)
  | t => ([], t)

/-- Reads what is left as an exponent, whose first digit is an ASCII digit other than zero. -/
def readExponent? : Text → Option Int
  | [] => some 0
  | 'e' :: rest =>
    let (negative, digits) := Text.splitSign rest
    match digits with
    | [] => none
    | c :: more =>
      if '1' ≤ c ∧ c ≤ '9' ∧ more.all Text.isDigit then
        some (if negative then -Text.numeralValue digits else Text.numeralValue digits)
      else none
  | _ => none

def readUnsigned? (negative : Bool) (t : Text) : Option Numeral :=
  match t with
  | '.' :: digits =>
    if !digits.isEmpty && digits.all Text.isDigit then
      some ⟨negative, Text.numeralValue digits, -digits.length⟩
    else none
  | _ =>
    match splitWhole? t with
    | none => none
    | some (whole, rest) =>
      let (fraction, rest) := splitFraction rest
      (readExponent? rest).map fun exponent =>
        ⟨negative, Text.numeralValue (whole ++ fraction), exponent - fraction.length⟩

def numeral? : Text → Option Numeral
  | '-' :: rest => readUnsigned? true rest
  | t => readUnsigned? false t

def read? (t : Text) : Option Float := (numeral? t).map Numeral.toFloat

/-- The shortest literal that reads back as a number. An infinity is written as a number that is
too large to be finite. -/
def write (x : Float) : Text :=
  Decimal.Layout.literal.writeShortest ['1', 'e', '9', '9', '9'] x

def piToken : Text := ['p', 'i']

def pi : Float := 3.141592653589793

end PrefixIntegral.Literal
