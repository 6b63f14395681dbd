import PrefixIntegral.Formula.Reader
import PrefixIntegral.Journal.Account
import PrefixIntegral.Tree.Listing
import PrefixIntegral.Tree.Symbolic
import PrefixIntegral.Tree.Traversal

namespace PrefixIntegral.Tour

/-- The lines of one stop of the tour, as output and as errors. -/
structure Stop where
  output : List String
  errors : List String

def places (count : Nat) (x : Float) : String := String.ofList (Decimal.fixed count x)

def showTree (render : Symbolic Float → String) (formula : String) (t : Tree Float) :
    List String :=
  ["Formula: " ++ formula, "Canonical: " ++ String.ofList t.write,
    "SymPy: " ++ render t.toSymbolic,
    s!"Nodes: {t.size}, depth: {t.depth}"] ++
  (t.listing 3 " ").map ("  " ++ ·)

def samplePoints : List Float := [1.5, 2, 2.5, 3, 3.5, 4]

def sampleLines (t : Tree Float) : List String :=
  ["", "Sampled values:"] ++
  match t.evaluateMany ⟨[samplePoints.length], samplePoints⟩ with
  | .error fault => [fault.message]
  | .ok grid => (samplePoints.zip grid.values).map fun (x, value) =>
      s!"  f({places 2 x}) = {places 10 value}"

def integralOf (formula : String) (order grain : Option Setting) (c : Configuration) :
    Except IntegralFault Integral :=
  Integral.make (.formula formula.toList) order grain Formula.defaultSymbol c

def grains : List Nat := [10, 100, 1000]

/-- The distance of an integral from its exact value; not a number if it cannot be computed. -/
def distance (formula : String) (lower upper exact : Float) (order grain : Nat) : Float :=
  match integralOf formula (some (.integer order)) (some (.integer grain)) .default with
  | .error _ => 0 / 0
  | .ok i =>
    match (i.integrate lower upper .unlimited).result with
    | .error _ => 0 / 0
    | .ok value => (value - exact).abs

def convergenceLines (formula : String) (lower upper exact : Float) : List String :=
  let interval := writeInterval lower upper
  let target := places 12 exact
  ["", s!"Convergence for {formula} on {interval} (exact = {target})",
    "  order " ++ String.join (grains.map fun grain => Column.right 14 (toString grain))] ++
  (List.range 6).map fun order =>
    "  " ++ Column.right 5 (toString order) ++ " " ++
      String.join (grains.map fun grain => Column.right 14 <| String.ofList <|
        Decimal.exponential 3 (distance formula lower upper exact order grain))

def faultyFormulas : List String :=
  ["(+ 1 2", "(+ 1 2))", "(- 1 2 3)", "(foo x)", "(+ (sin x)(cos x))", "(+ x 01)"]

def faultLine? (formula : String) : Option String :=
  match Formula.read formula.toList Formula.defaultSymbol with
  | .ok _ => none
  | .error fault =>
    some ("  " ++ Column.left 24 (String.ofList (Text.quoted formula.toList)) ++ " " ++
      fault.name ++ ": " ++ fault.message)

def poleLine? : Option String :=
  match integralOf "(/ 1 x)" (some (.integer 2)) (some (.integer 100)) .default with
  | .error _ => none
  | .ok i =>
    match (i.integrate 0 1 .unlimited).result with
    | .ok _ => none
    | .error fault => some s!"  integrating 1/x from 0: {fault.name}: {fault.message}"

def reversedStop : Stop :=
  match integralOf "(+ x 0)" (some (.integer 1)) (some (.integer 1000)) .default with
  | .error fault => ⟨[fault.message], []⟩
  | .ok i =>
    let run := i.integrate 1 0 .unlimited
    let journal := Journal.empty.configure .default
    let written := (journal.noteAll (run.account i.tree.formula fun _ => 0)).2
    ⟨match run.result with
      | .error fault => [fault.message]
      | .ok value =>
        [s!"  reversed limits gave {places 6 value} with {run.warnings.length} warning(s)"],
      written.map fun line => line.2.write⟩

def workerLines : List String :=
  let settings : GivenSettings :=
    { GivenSettings.empty with chunkSize := some (.integer 10000), workers := some (.integer 4) }
  match Configuration.ofSettings settings with
  | .error fault => [fault.message]
  | .ok c =>
    match integralOf "(exp (- 0 (sqr x)))" (some (.integer 4))
        (some (.integer Settings.fine.val)) c with
    | .error fault => [fault.message]
    | .ok i =>
      match (i.integrate (-3) 3 .unlimited).result with
      | .error fault => [fault.message]
      | .ok value => [
          "", s!"Gaussian on [-3, 3], order 4, fine grain, {c.workers.val} threads: " ++
            places 12 value,
          "  sqrt(pi) * erf(3) = " ++ places 12 (Literal.pi.sqrt * 0.9999779095030014)]

def lines (render : Symbolic Float → String) : Stop :=
  let formula := "(+ (/ (* 2.3 x) (log x)) (sin x) 8)"
  let first := match Formula.read formula.toList Formula.defaultSymbol with
    | .error fault => [fault.message]
    | .ok t => showTree render formula t ++ sampleLines t
  let reversed := reversedStop
  ⟨first ++
    convergenceLines "(sin x)" 0 Literal.pi 2 ++
    convergenceLines "(* pi (sqr x))" 0 2 (8 * Literal.pi / 3) ++
    ["", "Error handling:"] ++ faultyFormulas.filterMap faultLine? ++ poleLine?.toList ++
    reversed.output ++ workerLines, reversed.errors⟩

end PrefixIntegral.Tour
