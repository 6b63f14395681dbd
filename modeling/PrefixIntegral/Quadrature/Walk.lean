import PrefixIntegral.Settings.Resolve

/-!
The walk over the sub-intervals. Starts are found by adding the step again and again, and the
walk is cut into batches; each batch goes on from where the one before it ended, so the starts
round as those of an uncut walk do.
-/

namespace PrefixIntegral

inductive WalkFault where
  | emptyBatches
  deriving DecidableEq, Repr

def WalkFault.message : WalkFault → String
  | emptyBatches => "range() arg 3 must not be zero"

/-- Where a walk stands: the next start, and how many are left. -/
structure Walk (α : Type) where
  next : α
  left : Nat
  deriving DecidableEq

namespace Walk

variable {α : Type} [Add α]

def starts (step : α) : Nat → α → List α
  | 0, _ => []
  | count + 1, x => x :: starts step count (x + step)

def advance (step : α) : Nat → α → α
  | 0, x => x
  | count + 1, x => advance step count (x + step)

def batchLength (w : Walk α) (chunkSize : Count) : Nat := min chunkSize.val w.left

def batch (w : Walk α) (step : α) (chunkSize : Count) : List α :=
  starts step (w.batchLength chunkSize) w.next

def rest (w : Walk α) (step : α) (chunkSize : Count) : Walk α :=
  ⟨advance step (w.batchLength chunkSize) w.next, w.left - w.batchLength chunkSize⟩

theorem left_rest_lt (w : Walk α) (step : α) (chunkSize : Count) (h : w.left ≠ 0) :
    (w.rest step chunkSize).left < w.left := by
  have := chunkSize.property
  simp only [rest, batchLength]
  omega

def batches (w : Walk α) (step : α) (chunkSize : Count) : List (List α) :=
  if h : w.left = 0 then []
  else
    have := w.left_rest_lt step chunkSize h
    w.batch step chunkSize :: (w.rest step chunkSize).batches step chunkSize
  termination_by w.left

/-- The batches for counts that may be anything: there are none where the walk or a batch would
have a negative length. -/
def batchesOf (first step : α) (grain chunkSize : Int) : Except WalkFault (List (List α)) :=
  if chunkSize = 0 then .error .emptyBatches
  else match Settings.toCount? chunkSize with
    | some size => .ok ((⟨first, grain.toNat⟩ : Walk α).batches step size)
    | none => .ok []

end Walk

end PrefixIntegral
