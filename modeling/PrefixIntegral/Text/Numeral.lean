import PrefixIntegral.Text.Digit

/-!
Whole numbers as a user writes them: blanks around, a sign, and digits of any script with
single underscores between them. Neither read nor written is a number with too many digits.
-/

namespace PrefixIntegral.Text

/-- A blank that may stand around a numeral. The four separators from file to unit, blanks
elsewhere, may not. -/
def isPadding (c : Char) : Bool := isBlank c && !(28 ≤ c.toNat && c.toNat ≤ 31)

/-- Removes underscores that stand between two digits; refuses any other. The first argument
tells whether the character before was a digit. -/
def dropUnderscores (afterDigit : Bool) : Text → Option Text
  | [] => some []
  | c :: rest =>
    if c = '_' then
      if afterDigit && (rest.head?.map isDigit).getD false then dropUnderscores false rest
      else none
    else (dropUnderscores (isDigit c) rest).map (c :: ·)

def splitSign : Text → Bool × Text
  | '-' :: rest => (true, rest)
  | '+' :: rest => (false, rest)
  | t => (false, t)

def numeralLimit : Nat := 4300

def numeralLimitMessage : String :=
  s!"Exceeds the limit ({numeralLimit} digits) for integer string conversion; " ++
    "use sys.set_int_max_str_digits() to increase the limit"

def writeWhole? (n : Int) : Option String :=
  if (Nat.toDigits 10 n.natAbs).length ≤ numeralLimit then some (toString n) else none

def readWhole? (t : Text) : Option Int :=
  match dropUnderscores false (trimBoth isPadding t) with
  | none => none
  | some plain =>
    let (negative, digits) := splitSign plain
    if digits.isEmpty || !digits.all isDigit || numeralLimit < digits.length then none
    else
      let value : Int := numeralValue digits
      some (if negative then -value else value)

end PrefixIntegral.Text
