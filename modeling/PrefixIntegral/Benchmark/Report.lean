import PrefixIntegral.Benchmark.Suite
import PrefixIntegral.Journal.Calendar

namespace PrefixIntegral

/-- The middle of the numbers, or the mean of the two in the middle; there is at least one. -/
def median (xs : List Float) : Float :=
  let sorted := xs.mergeSort (fun a b => decide (a ≤ b))
  let half := sorted.length / 2
  let upper := sorted.getD half 0
  if sorted.length % 2 = 1 then upper else (sorted.getD (half - 1) 0 + upper) / 2

namespace Suite

def successful (s : Suite) : List Trial := s.trials.filter fun t => t.error?.isSome

abbrev Row := String × Nat

def row (t : Trial) : Row := (t.problem.name, t.configuration.grain.val)

def rows (s : Suite) : List Row := (s.successful.map row).eraseDups

def cell (s : Suite) (r : Row) (order : Nat) : Option Float :=
  (s.successful.reverse.find? fun t => row t = r ∧ t.configuration.order.val = order).bind
    Trial.error?

def columns : List Nat := List.range 6

def spaced : List String → String
  | [] => ""
  | [text] => text
  | text :: rest => text ++ " " ++ spaced rest

def rowLine (s : Suite) (r : Row) : String :=
  let cells := columns.map fun order =>
    match s.cell r order with
    | some error => Column.right 11 (Trial.errorText error)
    | none => Column.right 11 "-"
  Column.left 16 r.1 ++ " " ++ Column.right 7 (toString r.2) ++ " " ++ spaced cells

def headLine : String :=
  Column.left 16 "problem" ++ " " ++ Column.right 7 "grain" ++ " " ++
    spaced (columns.map fun order => Column.right 11 s!"order {order}")

def report (s : Suite) (now : Float) : List String :=
  if s.trials.isEmpty then ["No benchmark results available. Run some benchmarks first."]
  else
    ["", "NEWTON-COTES QUADRATURE BENCHMARK REPORT", Column.fill 80 '=',
      "Generated: " ++ String.ofList (Calendar.writeAt now), "",
      s!"Runs: {s.trials.length}, successful: {s.successful.length}", "", headLine] ++
    s.rows.map s.rowLine ++
    if s.successful.isEmpty then []
    else
      let figure := String.ofList (Decimal.grouped (median (s.successful.map (·.throughput))))
      ["", s!"Median throughput: {figure} evaluations/s"]

/-- The report as it is written out: a line is left empty after one that has results. -/
def writtenReport (s : Suite) (now : Float) : List String :=
  s.report now ++ if s.trials.isEmpty then [] else [""]

def reportFile? (s : Suite) (now : Float) : Option String :=
  if s.trials.isEmpty then none
  else some ("benchmark_report_" ++ String.ofList (Calendar.stampAt now) ++ ".txt")

def savedLines (s : Suite) (now : Float) : List String :=
  match s.reportFile? now with
  | some name => ["", "Report saved to: " ++ name]
  | none => []

end Suite

end PrefixIntegral
