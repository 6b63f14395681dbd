import PrefixIntegral.Scalar

/-!
The closed rules of Newton and Cotes. A rule of order `n` samples a sub-interval at `n + 1`
equally spaced points, both ends among them, and weights what it finds; the rule of order zero
samples the left end alone.
-/

namespace PrefixIntegral

abbrev Order := Fin 6

namespace Order

def name (order : Order) : String := s!"ORDER_{order.val}"

def weights (order : Order) : List Nat :=
  match order with
  | 0 => [1]
  | 1 => [1, 1]
  | 2 => [1, 4, 1]
  | 3 => [1, 3, 3, 1]
  | 4 => [7, 32, 12, 32, 7]
  | 5 => [19, 75, 50, 50, 75, 19]

def weightSum (order : Order) : Nat :=
  match order with
  | 0 => 1
  | 1 => 2
  | 2 => 6
  | 3 => 8
  | 4 => 90
  | 5 => 288

end Order

/-- What a rule makes of a step: the distance of neighbouring sample points, and the factor that
the weighted sum is scaled by in the end. -/
structure RuleScale (α : Type) where
  delta : α
  normalizer : α

namespace Order

variable {α : Type} [Scalar α]

def scale (order : Order) (step : α) : RuleScale α :=
  let sum := Scalar.ofNat order.weightSum
  if order = 0 then ⟨step, step / sum⟩
  else
    let panels := Scalar.ofNat order.val
    let delta := step / panels
    ⟨delta, panels * delta / sum⟩

def offsets (order : Order) (delta : α) : List α :=
  (List.range (order.val + 1)).map fun j => Scalar.ofNat j * delta

def factors (order : Order) : List α := order.weights.map Scalar.ofNat

end Order

/-- The width of a sub-interval, and whether the limits descend. -/
structure Step (α : Type) where
  width : α
  reversed : Bool

/-- Why there is no step: no sub-interval at all, or more than the arithmetic can count. -/
inductive StepFault where
  | noIntervals
  | tooMany
  deriving DecidableEq, Repr

namespace StepFault

def name : StepFault → String
  | noIntervals => "ZeroDivisionError"
  | tooMany => "OverflowError"

def message : StepFault → String
  | noIntervals => "float division by zero"
  | tooMany => "int too large to convert to float"

end StepFault

namespace Step

variable {α : Type} [Scalar α]

/-- The width of one of so many sub-intervals between two limits. Limits that descend give a
positive width all the same. -/
def between (lower upper : α) (grain : Int) : Step α :=
  if Scalar.exceeds lower upper then ⟨(lower - upper) / Scalar.ofInt grain, true⟩
  else ⟨(upper - lower) / Scalar.ofInt grain, false⟩

def compute (lower upper : α) (grain : Int) : Except StepFault (Step α) :=
  if grain = 0 then .error .noIntervals
  else if Scalar.reaches α grain then .ok (between lower upper grain)
  else .error .tooMany

end Step

end PrefixIntegral
