import PrefixIntegral.Benchmark.Report

namespace PrefixIntegral.QuickBenchmark

/-- What the command leaves behind: its status, where it gives one, and the lines it wrote. -/
structure Outcome where
  status : Option Nat
  lines : List String

def usage : List String := [
  "NEWTON-COTES BENCHMARK RUNNER", Column.fill 50 '=', "Usage:",
  "  python quick_benchmark.py quick        # Quick accuracy check",
  "  python quick_benchmark.py all          # Every problem, order and grain",
  "  python quick_benchmark.py list         # List all available problems",
  "  python quick_benchmark.py <problem>    # All orders for one problem"]

def quickProblems : List String := ["linear", "sine_half_wave"]

def tolerance : Float := 1e-9

def passes (t : Trial) : Bool :=
  match t.error? with
  | some error => error < tolerance
  | none => false

def verdict (t : Trial) : String :=
  if passes t then
    "PASSED " ++ t.problem.name ++ " (error = " ++ Trial.errorText (t.error?.getD 0) ++ ")"
  else
    "FAILED " ++ t.problem.name ++ " (" ++ (match t.result with
      | .ok value => String.ofList (Decimal.exact (value - t.problem.exact).abs)
      | .error fault => fault.message) ++ ")"

def check (elapsed : Float) : Outcome :=
  let trials := quickProblems.filterMap fun name =>
    (Suite.standard.attempt elapsed ⟨name, .integer 2, .integer Settings.coarse.val⟩).toOption
  let passed := (trials.filter passes).length
  ⟨some (if passed = quickProblems.length then 0 else 1),
    ["QUICK BENCHMARK TEST", Column.fill 60 '='] ++
    trials.flatMap (fun t => [t.line, verdict t]) ++
    [Column.fill 60 '=', s!"{passed}/{quickProblems.length} quick problems passed"]⟩

def all (elapsed now : Float) : Outcome :=
  let run := Suite.standard.run elapsed [] Suite.everyOrder Suite.usualGrains
  ⟨none, run.lines ++ run.suite.writtenReport now⟩

def list : Outcome :=
  ⟨none, ["AVAILABLE BENCHMARK PROBLEMS", Column.fill 80 '='] ++
    Suite.standard.problems.flatMap fun p => [
      "  " ++ Column.left 16 p.name ++ " [" ++ p.category ++ "] " ++ String.ofList p.formula ++
        " on " ++ writeInterval p.lower p.upper,
      "     " ++ p.description]⟩

def orders (elapsed now : Float) (name : String) : Outcome :=
  let suite := Suite.standard
  match suite.find? name with
  | none => ⟨none, [s!"Problem '{name}' not found!",
      "Available problems: " ++ Suite.quotedNames suite.names]⟩
  | some p =>
    let run := suite.attemptAll elapsed (Suite.plans [name] Suite.everyOrder Suite.usualGrains)
    ⟨none, ["RUNNING: " ++ name ++ "  " ++ String.ofList p.formula ++ " on " ++
        writeInterval p.lower p.upper,
      "Exact value: " ++ String.ofList (Decimal.exact p.exact), Column.fill 60 '='] ++
      run.lines ++ run.suite.writtenReport now⟩

def run (elapsed now : Float) : List Text → Outcome
  | [] => ⟨none, usage⟩
  | word :: _ =>
    match String.ofList (Text.toSmall word) with
    | "quick" => check elapsed
    | "all" => all elapsed now
    | "list" => list
    | name => orders elapsed now name

end PrefixIntegral.QuickBenchmark
