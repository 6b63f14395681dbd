import PrefixIntegral.Quadrature.Batch
import PrefixIntegral.Quadrature.Cancellation
import PrefixIntegral.Quadrature.Walk

/-!
Batches evaluated by several workers. A collector submits batches in order and adds their sums
in the same order; at most two batches per worker are in flight, so it waits for the oldest one
before it submits another. Workers take queued batches in order. What a worker does with a batch
then, to check for cancellation and to evaluate it, may come before or after what others do.

The pool is a state machine over the moves that the collector, the workers and whoever cancels
can make; a schedule is a list of moves. The collector stops at the first batch, in batch order,
that failed.
-/

namespace PrefixIntegral

/-- A batch in flight: in the queue, with a worker who is yet to check for cancellation, with one
who has checked, or done. -/
inductive Flight (α : Type) where
  | queued (starts : List α)
  | held (starts : List α)
  | running (starts : List α)
  | done (result : Except IntegrationFault α)

namespace Flight

variable {α : Type}

def isQueued : Flight α → Bool
  | queued _ => true
  | _ => false

def isHeld : Flight α → Bool
  | held _ => true
  | _ => false

def isRunning : Flight α → Bool
  | running _ => true
  | _ => false

def isBusy (flight : Flight α) : Bool := flight.isHeld || flight.isRunning

/-- What a batch is in flight once it has been checked: it runs, or it is done without a sum. -/
def checked (passes : Passes) (starts : List α) : Flight α :=
  if passes.allows then running starts else done (.error .cancelled)

end Flight

/-- What can happen next. The number of a batch in flight counts from the oldest one. -/
inductive Move where
  | submit
  | take
  | check (flight : Nat)
  | finish (flight : Nat)
  | collect
  | cancel
  deriving DecidableEq, Repr

structure PoolPlan (α : Type) [Scalar α] where
  sampling : Sampling α
  step : α
  chunkSize : Count
  workers : Count

/-- The state of a pool: the batches not yet submitted, those in flight from the oldest on, how
many have been added and to what sum, the checks still to pass, and the outcome once there is
one. -/
structure Pool (α : Type) where
  walk : Walk α
  flights : List (Flight α)
  collected : Nat
  total : α
  passes : Passes
  outcome : Option (Except IntegrationFault α)

namespace PoolPlan

variable {α : Type} [Scalar α]

def window (plan : PoolPlan α) : Nat := 2 * plan.workers.val

def batchSum (plan : PoolPlan α) (starts : List α) : Except IntegrationFault α :=
  match (plan.sampling.addBatch starts (Scalar.ofInt 0)).result with
  | .ok sum => .ok sum
  | .error fault => .error (.evaluation fault)

end PoolPlan

namespace Pool

variable {α : Type} [Scalar α]

def begin (walk : Walk α) (passes : Passes) : Pool α :=
  ⟨walk, [], 0, Scalar.ofInt 0, passes, none⟩

/-- The collector submits the next batch while there is one and the window has room. -/
def submit? (plan : PoolPlan α) (p : Pool α) : Option (Pool α) :=
  if p.outcome.isNone && p.walk.left != 0 && p.flights.length < plan.window then
    some { p with
      walk := p.walk.rest plan.step plan.chunkSize
      flights := p.flights ++ [.queued (p.walk.batch plan.step plan.chunkSize)] }
  else none

/-- The oldest batch in the queue is given to a worker. -/
def takeOldest : List (Flight α) → Option (List (Flight α))
  | [] => none
  | .queued starts :: rest => some (.held starts :: rest)
  | flight :: rest => (takeOldest rest).map (flight :: ·)

def take? (plan : PoolPlan α) (p : Pool α) : Option (Pool α) :=
  if p.flights.countP Flight.isBusy < plan.workers.val then
    (takeOldest p.flights).map fun flights => { p with flights }
  else none

def check? (p : Pool α) (flight : Nat) : Option (Pool α) :=
  match p.flights[flight]? with
  | some (.held starts) =>
    some { p with
      flights := p.flights.set flight (.checked p.passes starts)
      passes := p.passes.next }
  | _ => none

def finish? (plan : PoolPlan α) (p : Pool α) (flight : Nat) : Option (Pool α) :=
  match p.flights[flight]? with
  | some (.running starts) =>
    some { p with flights := p.flights.set flight (.done (plan.batchSum starts)) }
  | _ => none

/-- The collector takes the oldest batch once it is done, when the window is full or nothing is
left to submit. A batch that failed ends the collection. -/
def collect? (plan : PoolPlan α) (p : Pool α) : Option (Pool α) :=
  if p.outcome.isNone && (p.walk.left == 0 || plan.window ≤ p.flights.length) then
    match p.flights with
    | .done (.error fault) :: rest =>
      some { p with flights := rest, outcome := some (.error fault) }
    | .done (.ok sum) :: rest =>
      let total := p.total + sum
      some { p with
        flights := rest
        collected := p.collected + 1
        total
        outcome := if p.walk.left == 0 && rest.isEmpty then some (.ok total) else none }
    | _ => none
  else none

def move? (plan : PoolPlan α) (p : Pool α) : Move → Option (Pool α)
  | .submit => p.submit? plan
  | .take => p.take? plan
  | .check flight => p.check? flight
  | .finish flight => p.finish? plan flight
  | .collect => p.collect? plan
  | .cancel => some { p with passes := .exhausted }

/-- Makes the moves of a schedule, if each can be made in its turn. -/
def run? (plan : PoolPlan α) (p : Pool α) : List Move → Option (Pool α)
  | [] => some p
  | move :: rest => (p.move? plan move).bind fun next => next.run? plan rest

/-- The move of the plainest schedule: a batch is evaluated as soon as it is submitted, and
collected as soon as it may be. -/
def plainMove (plan : PoolPlan α) (p : Pool α) : Move :=
  match p.flights.findIdx? Flight.isRunning with
  | some flight => .finish flight
  | none =>
    match p.flights.findIdx? Flight.isHeld with
    | some flight => .check flight
    | none =>
      if p.flights.any Flight.isQueued then .take
      else if p.walk.left == 0 || plan.window ≤ p.flights.length then .collect
      else .submit

/-- Follows the plainest schedule for so many moves, or until there is an outcome. -/
def settle (plan : PoolPlan α) : Nat → Pool α → Pool α
  | 0, p => p
  | moves + 1, p =>
    if p.outcome.isSome then p
    else match p.move? plan (p.plainMove plan) with
      | some next => settle plan moves next
      | none => p

end Pool

end PrefixIntegral
