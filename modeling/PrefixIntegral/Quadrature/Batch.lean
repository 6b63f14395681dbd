import PrefixIntegral.Evaluation.Value
import PrefixIntegral.Quadrature.Rule

/-!
A batch of sub-intervals. All sample points of a batch are evaluated together; when that fails,
they are evaluated again one by one, so that the first point that fails decides the fault.
-/

namespace PrefixIntegral

inductive IntegrationFault where
  | step (fault : StepFault)
  | evaluation (fault : EvaluationFault)
  | cancelled
  deriving DecidableEq, Repr

namespace IntegrationFault

def name : IntegrationFault → String
  | step fault => fault.name
  | evaluation fault => fault.name
  | cancelled => "IntegrationCancelled"

def message : IntegrationFault → String
  | step fault => fault.message
  | evaluation fault => fault.message
  | cancelled => "Integration cancelled"

end IntegrationFault

/-- What comes of evaluations, with the points at which they are made, in order. -/
structure Evaluated (α β : Type) where
  points : List α
  result : Except EvaluationFault β

namespace Evaluated

variable {α β γ : Type}

def fail (fault : EvaluationFault) : Evaluated α β := ⟨[], .error fault⟩

def map (f : β → γ) (e : Evaluated α β) : Evaluated α γ := ⟨e.points, e.result.map f⟩

def bind (e : Evaluated α β) (next : β → Evaluated α γ) : Evaluated α γ :=
  match e.result with
  | .error fault => ⟨e.points, .error fault⟩
  | .ok value => ⟨e.points ++ (next value).points, (next value).result⟩

/-- Goes on after a fault. -/
def handle (e : Evaluated α β) (next : EvaluationFault → Evaluated α β) : Evaluated α β :=
  match e.result with
  | .error fault => ⟨e.points ++ (next fault).points, (next fault).result⟩
  | .ok _ => e

@[simp] theorem points_map (f : β → γ) (e : Evaluated α β) : (e.map f).points = e.points := rfl

@[simp] theorem result_map (f : β → γ) (e : Evaluated α β) :
    (e.map f).result = e.result.map f := rfl

theorem result_bind (e : Evaluated α β) (next : β → Evaluated α γ) :
    (e.bind next).result = e.result.bind fun value => (next value).result := by
  unfold bind
  cases e.result <;> rfl

theorem result_handle (e : Evaluated α β) (next : EvaluationFault → Evaluated α β) :
    (e.handle next).result = e.result.tryCatch fun fault => (next fault).result := by
  unfold handle
  cases h : e.result with
  | error fault => rfl
  | ok value => exact h

theorem handle_of_ok {e : Evaluated α β} {value : β} (h : e.result = .ok value)
    (next : EvaluationFault → Evaluated α β) : e.handle next = e := by
  rw [handle, h]

end Evaluated

structure Sampling (α : Type) [Scalar α] where
  tree : Tree α
  offsets : List α
  factors : List α

namespace Sampling

variable {α : Type} [Scalar α]

def ofRule (tree : Tree α) (order : Order) (delta : α) : Sampling α :=
  ⟨tree, order.offsets delta, order.factors⟩

def points (s : Sampling α) (starts : List α) : Grid α :=
  ⟨[starts.length, s.offsets.length], starts.flatMap fun x => s.offsets.map (x + ·)⟩

def evaluateAt (s : Sampling α) (x : α) : Evaluated α α := ⟨[x], s.tree.evaluate x⟩

def evaluateGrid (s : Sampling α) (grid : Grid α) : Evaluated α (Grid α) :=
  ⟨grid.values, s.tree.evaluateMany grid⟩

/-- Evaluates one point after another up to the first that fails; where none does, the fault stays
the one there was before. -/
def replay (s : Sampling α) (fault : EvaluationFault) : List α → Evaluated α (List α)
  | [] => .fail fault
  | x :: rest => (s.evaluateAt x).bind fun _ => s.replay fault rest

def values (s : Sampling α) (starts : List α) : Evaluated α (List α) :=
  let points := s.points starts
  ((s.evaluateGrid points).map Grid.values).handle fun fault => s.replay fault points.values

def accumulate (s : Sampling α) (rows : Nat) (values : List α) (total : α) : α :=
  ((List.replicate rows s.factors).flatten.zip values).foldl
    (fun total term => total + term.1 * term.2) total

def addBatch (s : Sampling α) (starts : List α) (total : α) : Evaluated α α :=
  (s.values starts).map fun values => s.accumulate starts.length values total

end Sampling

end PrefixIntegral
