import PrefixIntegral.Decimal.Binary
import PrefixIntegral.Settings.Setting
import PrefixIntegral.Text.Numeral

namespace PrefixIntegral

/-- Why a setting amounts to no whole number, or to one that is too long to be written. -/
inductive WholeFault where
  | noNumeral (text : Text)
  | nan
  | infinite
  | noNumber (given : Setting)
  | tooLong

namespace WholeFault

def name : WholeFault → String
  | noNumeral _ | nan | tooLong => "ValueError"
  | infinite => "OverflowError"
  | noNumber _ => "TypeError"

def message : WholeFault → String
  | noNumeral text =>
    "invalid literal for int() with base 10: " ++ String.ofList ((Text.quoted text).take 200)
  | nan => "cannot convert float NaN to integer"
  | infinite => "cannot convert float infinity to integer"
  | noNumber given =>
    "int() argument must be a string, a bytes-like object or a real number, not '" ++
      given.typeName ++ "'"
  | tooLong => Text.numeralLimitMessage

end WholeFault

namespace Setting

def truncate (x : Float) : Except WholeFault Int :=
  match Decimal.parts x with
  | .nan => .error .nan
  | .infinite _ => .error .infinite
  | .finite negative significand exponent =>
    let r := Decimal.ratio significand exponent
    let size : Int := (r.num / r.den : Nat)
    .ok (if negative then -size else size)

def toWhole : Setting → Except WholeFault Int
  | integer value => .ok value
  | number value => truncate value
  | text value =>
    match Text.readWhole? value with
    | some n => .ok n
    | Option.none => .error (.noNumeral value)
  | flag value => .ok (if value then 1 else 0)
  | foreign ⟨_, _, .builtIn value⟩ | foreign ⟨_, _, .whole value⟩
  | foreign ⟨_, _, .convertible value⟩ => .ok value
  | given => .error (.noNumber given)

def unlessTooLong : Option String → Except WholeFault String
  | some shown => .ok shown
  | Option.none => .error .tooLong

def plain : Setting → Except WholeFault String
  | text value => .ok (String.ofList value)
  | given => unlessTooLong (given.whole?.elim given.describe? Text.writeWhole?)

end Setting

end PrefixIntegral
