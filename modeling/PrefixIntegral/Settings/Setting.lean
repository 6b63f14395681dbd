import PrefixIntegral.Decimal.Shortest
import PrefixIntegral.Text.Numeral
import PrefixIntegral.Text.Quoted

/-!
Settings as they are given: a setting may be a value of any type, and one of the wrong type is
refused with a report that shows it. A value cannot be shown if a number in it has too many digits.
-/

namespace PrefixIntegral

/-- How far a value counts as a whole number: as one of the built-in numbers, as one of another
kind, or only once it is converted. -/
inductive Likeness where
  | builtIn (value : Int)
  | whole (value : Int)
  | convertible (value : Int)
  | unlike
  deriving DecidableEq, Repr

/-- A value of another type than settings are expected to have. Whatever counts as a whole number
prints as one. -/
structure Foreign where
  typeName : String
  shown : Option String
  likeness : Likeness
  deriving DecidableEq, Repr

inductive Setting where
  | integer (value : Int)
  | number (value : Float)
  | text (value : Text)
  | flag (value : Bool)
  | none
  | list (items : List Setting)
  | foreign (value : Foreign)
  deriving Inhabited

namespace Setting

mutual

def describe? : Setting → Option String
  | integer value => Text.writeWhole? value
  | number value => some (String.ofList (Decimal.exact value))
  | text value => some (String.ofList (Text.quoted value))
  | flag value => some (if value then "True" else "False")
  | none => some "None"
  | list items => (describeItems? items).map Text.bracketed
  | foreign value => value.shown

def describeItems? : List Setting → Option (List String)
  | [] => some []
  | item :: rest => do return (← item.describe?) :: (← describeItems? rest)

end

def typeName : Setting → String
  | integer _ => "int"
  | number _ => "float"
  | text _ => "str"
  | flag _ => "bool"
  | none => "NoneType"
  | list _ => "list"
  | foreign value => value.typeName

/-- The built-in whole number that a value is. A flag is not taken for one. -/
def builtIn? : Setting → Option Int
  | integer value => some value
  | foreign ⟨_, _, .builtIn value⟩ => some value
  | _ => Option.none

def whole? : Setting → Option Int
  | foreign ⟨_, _, .whole value⟩ => some value
  | given => given.builtIn?

end Setting

end PrefixIntegral
