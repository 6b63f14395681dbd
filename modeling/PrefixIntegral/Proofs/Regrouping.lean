import Mathlib.Data.List.Induction
import PrefixIntegral.Proofs.Workers

/-!
Sums that may be regrouped. Where addition associates and nothing is added by zero, a batch summed
by itself adds what its points add one by one, so neither batches nor workers make a difference:
every way of integrating comes to the composite sum, whose sub-intervals start at multiples of the
step.
-/

namespace PrefixIntegral

/-- Addition without rounding: sums may be regrouped, and zero adds nothing. -/
structure Scalar.AddsExactly (α : Type) [Scalar α] : Prop where
  add_assoc (a b c : α) : a + b + c = a + (b + c)
  add_zero (a : α) : a + Scalar.ofInt 0 = a

variable {α : Type} [Scalar α]

namespace Scalar

def times : Nat → α → α
  | 0, _ => ofInt 0
  | count + 1, a => times count a + a

def sum (values : List α) : α := values.foldl (· + ·) (ofInt 0)

theorem sum_concat (values : List α) (last : α) : sum (values ++ [last]) = sum values + last := by
  rw [sum, List.foldl_append]
  rfl

theorem AddsExactly.add_sum (hadd : AddsExactly α) (a : α) (values : List α) :
    a + sum values = values.foldl (· + ·) a := by
  induction values using List.reverseRecOn with
  | nil => exact hadd.add_zero a
  | append_singleton values last ih =>
      rw [sum_concat, ← hadd.add_assoc, ih, List.foldl_append]
      rfl

theorem AddsExactly.add_times_succ (hadd : AddsExactly α) (x a : α) (count : Nat) :
    x + times (count + 1) a = x + a + times count a := by
  induction count with
  | zero =>
      have hnone : times 0 a = ofInt 0 := rfl
      rw [times.eq_2, hnone, ← hadd.add_assoc, hadd.add_zero, hadd.add_zero]
  | succ count ih => rw [times, ← hadd.add_assoc, ih, hadd.add_assoc, times]

end Scalar

theorem Walk.advance_eq (hadd : Scalar.AddsExactly α) (step : α) (count : Nat) (x : α) :
    advance step count x = x + Scalar.times count step := by
  induction count generalizing x with
  | zero => exact (hadd.add_zero x).symm
  | succ count ih => rw [advance, ih, hadd.add_times_succ]

namespace Order

/-- The weighted values of a function at the sample points of the sub-interval from `x` on. -/
def weighted (order : Order) (delta : α) (f : α → α) (x : α) : α :=
  Scalar.sum <| (List.range (order.val + 1)).map fun j =>
    Scalar.ofNat (order.weights.getD j 0) * f (x + Scalar.ofNat j * delta)

/-- The weighted values of a function over so many sub-intervals, the first of them from `x` on and
each a step after the one before it. -/
def weightedSum (order : Order) (delta step : α) (count : Nat) (f : α → α) (x : α) : α :=
  Scalar.sum <| (List.range count).map fun i =>
    order.weighted delta f (x + Scalar.times i step)

theorem weightedSum_succ (order : Order) (delta step : α) (count : Nat) (f : α → α) (x : α) :
    order.weightedSum delta step (count + 1) f x = order.weightedSum delta step count f x +
      order.weighted delta f (x + Scalar.times count step) := by
  rw [weightedSum, List.range_succ, List.map_append, List.map_singleton, Scalar.sum_concat,
    weightedSum]

def compositeSum (order : Order) (step : α) (count : Nat) (f : α → α) (x : α) : α :=
  order.weightedSum (order.scale step).delta step count f x * (order.scale step).normalizer

end Order

namespace Tree

variable {t : Tree α} {order : Order} {delta step : α}

theorem foldlM_addSample (hadd : Scalar.AddsExactly α) {f : α → α} {x : α} {count : Nat}
    (hvalues : ∀ j < count, let point := x + Scalar.ofNat j * delta
      t.evaluate point = .ok (f point)) (total : α) :
    (List.range count).foldlM (t.addSample order delta x) total =
      .ok (total + Scalar.sum ((List.range count).map fun j =>
        Scalar.ofNat (order.weights.getD j 0) * f (x + Scalar.ofNat j * delta))) := by
  induction count with
  | zero => exact congrArg Except.ok (hadd.add_zero total).symm
  | succ count ih =>
      have hlast := hvalues count (Nat.lt_succ_self count)
      rw [List.range_succ, List.foldlM_append, ih fun j hj => hvalues j (Nat.lt_succ_of_lt hj),
        List.map_append, List.map_singleton, Scalar.sum_concat, ← hadd.add_assoc]
      simp only [bind, Except.bind, List.foldlM_cons, List.foldlM_nil, addSample]
      rw [hlast]
      rfl

theorem pointLoop_eq_weightedSum (hadd : Scalar.AddsExactly α) {f : α → α} {count : Nat} {x : α}
    (hvalues : ∀ i < count, ∀ j ≤ order.val,
      let point := x + Scalar.times i step + Scalar.ofNat j * delta
      t.evaluate point = .ok (f point)) (total : α) :
    t.pointLoop order delta step count x total =
      .ok (total + order.weightedSum delta step count f x) := by
  induction count with
  | zero => exact congrArg Except.ok (hadd.add_zero total).symm
  | succ count ih =>
      have hlast : ∀ total, t.addInterval order delta total (x + Scalar.times count step) =
          .ok (total + order.weighted delta f (x + Scalar.times count step)) :=
        foldlM_addSample hadd fun j hj =>
          hvalues count (Nat.lt_succ_self count) j (Nat.le_of_lt_succ hj)
      rw [pointLoop_add, ih fun i hi => hvalues i (Nat.lt_succ_of_lt hi), bind_of_ok rfl,
        pointLoop, Walk.advance_eq hadd, hlast, order.weightedSum_succ, ← hadd.add_assoc]
      rfl

theorem loopIntegral_eq_compositeSum (hadd : Scalar.AddsExactly α) {f : α → α} {lower upper : α}
    {grain : Count}
    (hvalues : ∀ i < grain.val, ∀ j ≤ order.val,
      let step := (Step.between lower upper grain.val).width
      let point := lower + Scalar.times i step + Scalar.ofNat j * (order.scale step).delta
      t.evaluate point = .ok (f point)) :
    t.loopIntegral order lower upper grain =
      .ok (order.compositeSum (Step.between lower upper grain.val).width grain.val f lower) := by
  have hloop := pointLoop_eq_weightedSum hadd hvalues (Scalar.ofInt 0)
  rw [loopIntegral, hloop, Order.weightedSum, hadd.add_sum]
  rfl

theorem addInterval_add (hadd : Scalar.AddsExactly α) (a b x : α) :
    t.addInterval order delta (a + b) x = (t.addInterval order delta b x).map (a + ·) := by
  refine foldlM_commute (fun b j => ?_) _ b
  rw [addSample, addSample]
  cases t.evaluate (x + Scalar.ofNat j * delta) with
  | error fault => rfl
  | ok value => exact congrArg Except.ok (hadd.add_assoc _ _ _)

theorem batchLoop_eq_pointLoop (hadd : Scalar.AddsExactly α) (w : Walk α) (chunkSize : Count)
    (total : α) : t.batchLoop order delta (w.batches step chunkSize) total =
      t.pointLoop order delta step w.left w.next total := by
  induction hleft : w.left using Nat.strongRecOn generalizing w total with
  | _ left ih =>
      by_cases hzero : w.left = 0
      · rw [Walk.batches_of_done hzero, ← hleft, hzero]
        rfl
      · have hlt := w.left_rest_lt step chunkSize hzero
        have hbatch : ((w.batch step chunkSize).foldlM (t.addInterval order delta)
            (Scalar.ofInt 0)).map (total + ·) =
              (w.batch step chunkSize).foldlM (t.addInterval order delta) total := by
          rw [← foldlM_commute (fun b x => addInterval_add hadd total b x), hadd.add_zero]
        rw [Walk.batches_of_left hzero, ← hleft, w.pointLoop_batch chunkSize, batchLoop,
          List.foldlM_cons, hbatch]
        cases (w.batch step chunkSize).foldlM (t.addInterval order delta) total with
        | error fault => rfl
        | ok total => exact ih _ (by omega) (w.rest step chunkSize) total rfl

theorem result_integrate_of_pool {lower upper : α} {c : Configuration}
    (hpooled : ¬(c.workers.val = 1 ∨ c.batchCount = 1))
    (hgrain : Scalar.reaches α c.grain.val = true) :
    (t.integrate lower upper c .unlimited).result =
      (((t.sampling lower upper c).addSums (batches lower upper c) (Scalar.ofInt 0)).mapError
        .evaluation).map
          (· * (c.order.scale (Step.between lower upper c.grain.val).width).normalizer) := by
  let walk : Walk α := ⟨lower, c.grain.val⟩
  let plan := t.poolPlan lower upper c
  have hheads : (Pool.begin walk .unlimited).Heads plan _ := Pool.heads_begin c.grain.property rfl
  have hmoves : (Pool.begin walk .unlimited).movesLeft plan = 5 * c.batchCount :=
    t.movesLeft_begin lower upper c .unlimited
  rw [result_integrate_pooled hpooled hgrain, PoolPlan.sum,
    hheads.outcome_settle _ (Nat.le_of_eq hmoves), Option.getD_some, PoolPlan.addAll_eq]
  rfl

theorem addSums_eq_pointLoop (hadd : Scalar.AddsExactly α) (hpowers : t.PowersAgree)
    (lower upper : α) (c : Configuration) :
    (t.sampling lower upper c).addSums (batches lower upper c) (Scalar.ofInt 0) =
      t.pointLoop c.order (c.order.scale (Step.between lower upper c.grain.val).width).delta
        (Step.between lower upper c.grain.val).width c.grain.val lower (Scalar.ofInt 0) :=
  (addSums_batches hpowers ⟨lower, c.grain.val⟩ c.chunkSize (Scalar.ofInt 0)).trans
    (batchLoop_eq_pointLoop hadd ⟨lower, c.grain.val⟩ c.chunkSize (Scalar.ofInt 0))

/-- Whatever the batches and the workers, an integration finds what the plain loop finds. -/
theorem result_integrate_of_addsExactly (hadd : Scalar.AddsExactly α) (hpowers : t.PowersAgree)
    {lower upper : α} {c : Configuration} (hgrain : Scalar.reaches α c.grain.val = true) :
    (t.integrate lower upper c .unlimited).result =
      (t.loopIntegral c.order lower upper c.grain).mapError .evaluation := by
  by_cases halone : c.workers.val = 1 ∨ c.batchCount = 1
  · rw [result_integrate_alone halone hgrain, Sampling.sumInOrder_eq hpowers, map_mapError]
    rfl
  · rw [result_integrate_of_pool halone hgrain, addSums_eq_pointLoop hadd hpowers, map_mapError]
    rfl

end Tree

end PrefixIntegral
