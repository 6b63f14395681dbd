import PrefixIntegral.Journal.Basic
import PrefixIntegral.Quadrature.Integral

namespace PrefixIntegral

def Tree.account (t : Tree Float) : List Remark :=
  [.debug ("Parsed " ++ String.ofList (Text.quoted t.formula) ++ s!" into {t.size} nodes")]

def integrationSummary (formula : Text) (lower upper : Float) (c : Configuration)
    (integral : Float) : Summary := [
  ("formula".toList, .text formula),
  ("interval".toList, .text (writeInterval lower upper).toList),
  ("order".toList, .whole c.order.val),
  ("grain".toList, .whole c.grain.val),
  ("evaluations".toList, .whole c.evaluations),
  ("integral".toList, .number integral)]

/-- What is said about an event of an integration. A clock tells the time when a batch is done. -/
def RunEvent.remark (formula : Text) (clock : Nat → Float) : RunEvent Float → Remark
  | .reversedLimits lower upper => .warning (reversedLimitsMessage lower upper)
  | .started lower upper c =>
    .info ("Integrating " ++ String.ofList formula ++ " on " ++ writeInterval lower upper ++
      s!": order {c.order.val}, grain {c.grain.val}, {c.batchCount} batches") .detailed
  | .pooled batches workers => .debug s!"Evaluating {batches} batches on {workers} threads"
  | .batchDone number batches => .progress (clock number) s!"batch {number}/{batches}" false
  | .finished lower upper c integral =>
    .summary (integrationSummary formula lower upper c integral)

def Run.account (run : Run Float) (formula : Text) (clock : Nat → Float) : List Remark :=
  run.events.map (RunEvent.remark formula clock)

end PrefixIntegral
