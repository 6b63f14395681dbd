import PrefixIntegral.Quadrature.Pool
import PrefixIntegral.Settings.Configuration
import PrefixIntegral.Tree.Printer

/-!
One integration. The interval is cut into sub-intervals of equal width, each is sampled by the
rule, and the weighted values are added to one running sum that is scaled once at the end. The
sum is the same whether batches are evaluated one after another in one sum or, by several
workers, each in a sum of its own, up to how sums round.

Limits in descending order are reported, and the walk then goes forward from the first of them.
Besides its result an integration leaves a record of what happened, for whoever keeps a journal.
-/

namespace PrefixIntegral

inductive RunEvent (α : Type) where
  | reversedLimits (lower upper : α)
  | started (lower upper : α) (configuration : Configuration)
  | pooled (batches workers : Nat)
  | batchDone (number batches : Nat)
  | finished (lower upper : α) (configuration : Configuration) (integral : α)

/-- The result of an integration and what happened on the way. -/
structure Run (α : Type) where
  events : List (RunEvent α)
  result : Except IntegrationFault α

/-- How far a summation came: the batches added, and the sum or why it stopped. -/
structure Summation (α : Type) where
  added : Nat
  result : Except IntegrationFault α

namespace Sampling

variable {α : Type} [Scalar α]

/-- Adds the batches of a walk to one sum, one after another, checking before each whether the
integration has been cancelled. -/
def sumInOrder (s : Sampling α) (step : α) (chunkSize : Count) (w : Walk α) (passes : Passes)
    (added : Nat) (total : α) : Summation α :=
  if h : w.left = 0 then ⟨added, .ok total⟩
  else if passes.allows then
    match (s.addBatch (w.batch step chunkSize) total).result with
    | .error fault => ⟨added, .error (.evaluation fault)⟩
    | .ok total =>
      have := w.left_rest_lt step chunkSize h
      s.sumInOrder step chunkSize (w.rest step chunkSize) passes.next (added + 1) total
  else ⟨added, .error .cancelled⟩
  termination_by w.left

end Sampling

namespace PoolPlan

variable {α : Type} [Scalar α]

/-- Adds the batches of a walk by the workers of a pool. Five moves see a batch through. -/
def sum (plan : PoolPlan α) (batchCount : Nat) (w : Walk α) (passes : Passes) : Summation α :=
  let last := Pool.settle plan (5 * batchCount) (Pool.begin w passes)
  ⟨last.collected, last.outcome.getD (.ok last.total)⟩

end PoolPlan

namespace Tree

variable {α : Type} [Scalar α]

def integrateBy (t : Tree α) (step : Step α) (lower upper : α) (c : Configuration)
    (passes : Passes) : Run α :=
  let scale := c.order.scale step.width
  let sampling := Sampling.ofRule t c.order scale.delta
  let walk : Walk α := ⟨lower, c.grain.val⟩
  let batchCount := c.batchCount
  let alone := c.workers.val = 1 ∨ batchCount = 1
  let summation :=
    if alone then
      sampling.sumInOrder step.width c.chunkSize walk passes 0 (Scalar.ofInt 0)
    else PoolPlan.sum ⟨sampling, step.width, c.chunkSize, c.workers⟩ batchCount walk passes
  let result := summation.result.map (· * scale.normalizer)
  { events :=
      (if step.reversed then [.reversedLimits lower upper] else []) ++
      .started lower upper c ::
      (if alone then [] else [.pooled batchCount c.workers.val]) ++
      (List.range summation.added).map (fun i => .batchDone (i + 1) batchCount) ++
      (match result with
        | .ok integral => [.finished lower upper c integral]
        | .error _ => [])
    result }

/-- Integrates a tree from one limit to another. Nothing happens before there is a step. -/
def integrate (t : Tree α) (lower upper : α) (c : Configuration) (passes : Passes) : Run α :=
  match Step.compute lower upper c.grain.val with
  | .error fault => ⟨[], .error (.step fault)⟩
  | .ok step => t.integrateBy step lower upper c passes

end Tree

def writeInterval (lower upper : Float) : String :=
  "[" ++ String.ofList (Decimal.exact lower) ++ ", " ++ String.ofList (Decimal.exact upper) ++ "]"

def swappedLimits : String := "Incorrect interval limits: Limits are swapped"

def reversedLimitsMessage (lower upper : Float) : String :=
  let first := String.ofList (Decimal.exact lower)
  let second := String.ofList (Decimal.exact upper)
  s!"{swappedLimits} ({first} > {second}); integrating forward from {first}"

def Run.warnings (run : Run Float) : List String :=
  run.events.filterMap fun
    | .reversedLimits lower upper => some (reversedLimitsMessage lower upper)
    | _ => none

end PrefixIntegral
