import PrefixIntegral.Benchmark.Problem
import PrefixIntegral.Decimal.Places
import PrefixIntegral.Quadrature.Integral
import PrefixIntegral.Settings.Whole
import PrefixIntegral.Text.Column

namespace PrefixIntegral

structure Trial where
  problem : Problem
  configuration : Configuration
  orderAsked : String
  result : Except EvaluationFault Float
  elapsed : Float

namespace Trial

def error? (t : Trial) : Option Float :=
  match t.result with
  | .ok value => some (value - t.problem.exact).abs
  | .error _ => none

/-- The shortest time, in seconds, that a throughput is reckoned with. -/
def shortestTime : Float := 1e-12

def throughput (t : Trial) : Float :=
  Scalar.ofNat t.configuration.evaluations /
    if t.elapsed < shortestTime then shortestTime else t.elapsed

def errorText (error : Float) : String := String.ofList (Decimal.exponential 3 error)

def line (t : Trial) : String :=
  let grain := toString t.configuration.grain.val
  "  " ++ Column.left 16 t.problem.name ++ " order=" ++ t.orderAsked ++ " grain=" ++
    Column.left 7 grain ++ " " ++
    match t.result with
    | .ok value =>
      "error=" ++ errorText (value - t.problem.exact).abs ++ "  time=" ++
        String.ofList (Decimal.fixed 3 t.elapsed) ++ "s"
    | .error fault => "FAILED: " ++ fault.message

end Trial

end PrefixIntegral
