import PrefixIntegral.Quadrature.Rule
import PrefixIntegral.Text.Numeral

/-!
Breakdowns: the ends of a run that leave no outcome. The separator is no value of an option even
in the option's own word: it is taken away, and the option is left with an empty list. Settings
refuse the list with a report; where a verbosity, a symbol or a number is needed, the run breaks
down as soon as the list is used. It also breaks down where an interval has no step, and where a
number that is refused has too many digits to be shown.
-/

namespace PrefixIntegral

/-- What an empty list was used as, a number that cannot be shown, or why there is no step. -/
inductive Breakdown where
  | verbosity
  | symbol
  | number
  | numeral
  | step (fault : StepFault)
  deriving DecidableEq, Repr

namespace Breakdown

def name : Breakdown → String
  | verbosity => "AttributeError"
  | symbol | number => "TypeError"
  | numeral => "ValueError"
  | step fault => fault.name

def message : Breakdown → String
  | verbosity => "'list' object has no attribute 'upper'"
  | symbol => "name should be a string, not <class 'list'>"
  | number => "float() argument must be a string or a real number, not 'list'"
  | numeral => Text.numeralLimitMessage
  | step fault => fault.message

end Breakdown

end PrefixIntegral
