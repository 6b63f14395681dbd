import PrefixIntegral.Console.Arguments
import PrefixIntegral.Journal.Account
import PrefixIntegral.Tree.Listing
import PrefixIntegral.Tree.Symbolic

namespace PrefixIntegral

/-- What a command leaves behind: its status, and the lines it wrote as output and as errors. -/
structure Outcome where
  status : Nat
  output : List String
  errors : List String
  deriving DecidableEq, Repr

namespace Arguments

def settings (a : Arguments) : GivenSettings :=
  ⟨some a.order, some a.grain, some a.chunkSize, some a.workers⟩

def journal (a : Arguments) : Journal :=
  Journal.empty.configure { Recorder.default with level := a.level }

def journalLines (written : List (Sink × Entry)) : List String :=
  written.map fun line => line.2.write

def report (message : String) : String := "error: " ++ message

def valueLine (x value : Float) : String :=
  "f(" ++ String.ofList (Decimal.exact x) ++ ") = " ++ String.ofList (Decimal.exact value)

def valueLines (tree : Tree Float) : List Float → List String × Option EvaluationFault
  | [] => ([], none)
  | x :: rest =>
    match tree.evaluate x with
    | .error fault => ([], some fault)
    | .ok value =>
      let (lines, fault) := valueLines tree rest
      (valueLine x value :: lines, fault)

def shown (a : Arguments) (render : Symbolic Float → String) (tree : Tree Float) : List String :=
  (if a.tree then tree.listing 4 "  " else []) ++
    (if a.symbolic then [render tree.toSymbolic] else [])

def integrated (a : Arguments) (clock : Nat → Float) (tree : Tree Float) (c : Configuration)
    (journal : Journal) (output errors : List String) : Except Breakdown Outcome :=
  match a.limits with
  | none => .ok ⟨0, output, errors⟩
  | some (lower, upper) =>
    let run := tree.integrate lower upper c .unlimited
    let errors := errors ++ journalLines (journal.noteAll (run.account tree.formula clock)).2
    match run.result with
    | .error (.step fault) => .error (.step fault)
    | .error fault => .ok ⟨1, output, errors ++ [report fault.message]⟩
    | .ok value => .ok ⟨0, output ++ [String.ofList (Decimal.exact value)], errors⟩

/-- Shows, evaluates and integrates a tree, after lines have been written already. -/
def compute (a : Arguments) (render : Symbolic Float → String) (clock : Nat → Float)
    (tree : Tree Float) (c : Configuration) (journal : Journal) (errors : List String) :
    Except Breakdown Outcome :=
  if a.breakdown = some .symbol then .error .symbol
  else
    let (lines, fault?) := valueLines tree a.points
    let output := a.shown render tree ++ lines
    match fault?, a.breakdown with
    | some fault, _ => .ok ⟨1, output, errors ++ [report fault.message]⟩
    | none, some breakdown => .error breakdown
    | none, none => a.integrated clock tree c journal output errors

def perform (a : Arguments) (render : Symbolic Float → String) (clock : Nat → Float) :
    Except Breakdown Outcome :=
  match Formula.read a.formula a.symbol with
  | .error fault => .ok ⟨2, [], [report fault.message]⟩
  | .ok tree =>
    let (journal, written) := a.journal.noteAll tree.account
    match Configuration.ofNames a.settings with
    | .error fault =>
      match fault.report? with
      | none => .error .numeral
      | some complaint => .ok ⟨2, [], journalLines written ++ [report complaint]⟩
    | .ok c => a.compute render clock tree c journal (journalLines written)

end Arguments

namespace Command

def name : String := "polish-quadrature"

def usage (c : Choice) : String :=
  " [" ++ c.title ++ (if c.takesValue then " VALUE" else "") ++ "]"

def help : List String :=
  ["usage: " ++ name ++ String.join (Choice.all.map usage) ++ " formula", "",
    "Evaluate and integrate formulas written in prefix notation"]

def usageReport (fault : UsageFault) : String := name ++ ": error: " ++ fault.message

def run (render : Symbolic Float → String) (clock : Nat → Float) (words : List Text) :
    Except Breakdown Outcome :=
  match Arguments.read words with
  | .error .help => .ok ⟨0, help, []⟩
  | .error (.fault fault) => .ok ⟨2, [], [usageReport fault]⟩
  | .error (.broken breakdown) => .error breakdown
  | .ok arguments => arguments.perform render clock

end Command

end PrefixIntegral
