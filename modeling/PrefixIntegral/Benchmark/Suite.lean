import PrefixIntegral.Benchmark.Trial

/-!
A suite of problems and the trials that were made of them. A trial that is refused, because the
problem is not in the suite or cannot be set up, or because its order or its count of sub-intervals
goes by a name and cannot be recorded as a number, leaves no record.
-/

namespace PrefixIntegral

inductive BenchmarkFault where
  | unknownProblem (name : String) (available : List String)
  | integral (fault : IntegralFault)
  | notWhole (fault : WholeFault)

/-- Problems in order, and trials in the order in which they were made. -/
structure Suite where
  problems : List Problem
  trials : List Trial

/-- What is to be tried: a problem by its name, an order and a count of sub-intervals. -/
structure TrialPlan where
  problem : String
  order : Setting
  grain : Setting

structure SuiteRun where
  suite : Suite
  lines : List String
  result : Except BenchmarkFault Nat

namespace Suite

def standard : Suite := ⟨Problem.standard, []⟩

def names (s : Suite) : List String := s.problems.map (·.name)

def quotedNames (names : List String) : String :=
  Text.bracketed (names.map fun name => String.ofList (Text.quoted name.toList))

/-- The suite with a problem. One of the same name gives its place to it. -/
def put (s : Suite) (p : Problem) : Suite :=
  if p.name ∈ s.names then
    { s with problems := s.problems.map fun q => if q.name = p.name then p else q }
  else { s with problems := s.problems ++ [p] }

def find? (s : Suite) (name : String) : Option Problem := s.problems.find? (·.name = name)

def givenSetting : Setting → Option Setting
  | .none => none
  | setting => some setting

def outcome : Except IntegrationFault Float → Except BenchmarkFault (Except EvaluationFault Float)
  | .ok value => .ok (.ok value)
  | .error (.evaluation fault) => .ok (.error fault)
  | .error fault => .error (.integral (.integration fault))

def attempt (s : Suite) (elapsed : Float) (plan : TrialPlan) : Except BenchmarkFault Trial :=
  match s.find? plan.problem with
  | none => .error (.unknownProblem plan.problem s.names)
  | some p => do
    let i ← (Integral.make (.formula p.formula) (givenSetting plan.order) (givenSetting plan.grain)
      p.symbol .default).mapError .integral
    let result ← outcome (i.integrate p.lower p.upper .unlimited).result
    let _ ← plan.order.toWhole.mapError .notWhole
    let _ ← plan.grain.toWhole.mapError .notWhole
    let orderAsked ← plan.order.plain.mapError .notWhole
    return ⟨p, i.configuration, orderAsked, result, elapsed⟩

def record (s : Suite) (t : Trial) : Suite := { s with trials := s.trials ++ [t] }

def attemptAll (s : Suite) (elapsed : Float) : List TrialPlan → SuiteRun
  | [] => ⟨s, [], .ok 0⟩
  | plan :: rest =>
    match s.attempt elapsed plan with
    | .error fault => ⟨s, [], .error fault⟩
    | .ok trial =>
      let run := (s.record trial).attemptAll elapsed rest
      { run with lines := trial.line :: run.lines, result := run.result.map (· + 1) }

def everyOrder : List Setting := (List.range 6).map fun n : Nat => .integer n

def usualGrains : List Setting :=
  [.integer Settings.coarse.val, .integer Settings.medium.val]

def ofCategories (s : Suite) (categories : List String) : List Problem :=
  s.problems.filter fun p => categories.isEmpty || p.category ∈ categories

def plans (problems : List String) (orders grains : List Setting) : List TrialPlan :=
  problems.flatMap fun p => grains.flatMap fun grain => orders.map fun order => ⟨p, order, grain⟩

def rulesLine (orders grains : List Setting) : Except WholeFault String := do
  let shownOrders ← Setting.unlessTooLong (Setting.list orders).describe?
  let counts ← grains.mapM Setting.toWhole
  let shownCounts ← Setting.unlessTooLong (Setting.list (counts.map .integer)).describe?
  return "orders: " ++ shownOrders ++ ", grains: " ++ shownCounts

def run (s : Suite) (elapsed : Float) (categories : List String) (orders grains : List Setting) :
    SuiteRun :=
  let names := (s.ofCategories categories).map (·.name)
  let title := "RUNNING QUADRATURE BENCHMARK SUITE"
  match rulesLine orders grains with
  | .error fault => ⟨s, [title], .error (.notWhole fault)⟩
  | .ok rules =>
    let tried := s.attemptAll elapsed (plans names orders grains)
    { tried with lines := title :: (s!"Problems: {names.length}, " ++ rules) :: tried.lines }

end Suite

def BenchmarkFault.name : BenchmarkFault → String
  | unknownProblem .. => "ValueError"
  | integral fault => fault.name
  | notWhole fault => fault.name

def BenchmarkFault.message : BenchmarkFault → String
  | unknownProblem name available =>
    s!"Problem '{name}' not found. Available: " ++ Suite.quotedNames available
  | integral fault => fault.message
  | notWhole fault => fault.message

end PrefixIntegral
