import PrefixIntegral.Proofs.Schedule

/-!
Integration by several workers as a loop: over the batches, each summed by itself by the loop over
its points. It has the fault that the loop over all points has, which is that of the first point
with one.
-/

namespace PrefixIntegral

variable {α : Type} [Scalar α]

namespace Tree

/-- The loop over batches: adds to a sum what the loop over the points of each batch comes to from
zero. -/
def batchLoop (t : Tree α) (order : Order) (delta : α) (batches : List (List α)) (total : α) :
    Except EvaluationFault α :=
  batches.foldlM (fun total starts =>
    (starts.foldlM (t.addInterval order delta) (Scalar.ofInt 0)).map (total + ·)) total

variable {t : Tree α} {order : Order} {delta step : α}

theorem addInterval_error (total total' x : α) (fault : EvaluationFault)
    (h : t.addInterval order delta total x = .error fault) :
    t.addInterval order delta total' x = .error fault := by
  refine (foldlM_error_iff (fun b b' j found hfound => ?_) _ total total' fault).1 h
  rw [addSample, map_eq_error_iff] at hfound ⊢
  exact hfound

theorem batchLoop_error_iff (w : Walk α) (chunkSize : Count) (total total' : α)
    (fault : EvaluationFault) :
    t.batchLoop order delta (w.batches step chunkSize) total = .error fault ↔
      t.pointLoop order delta step w.left w.next total' = .error fault := by
  -- A fault does not depend on the sum so far, so the two loops may have come to different sums.
  induction hleft : w.left using Nat.strongRecOn generalizing w total total' with
  | _ left ih =>
      by_cases hzero : w.left = 0
      · rw [Walk.batches_of_done hzero, ← hleft, hzero]
        exact iff_of_false nofun nofun
      · have hlt := w.left_rest_lt step chunkSize hzero
        have hbatch := foldlM_error_iff (@addInterval_error _ _ t order delta)
          (w.batch step chunkSize) (Scalar.ofInt 0) total'
        rw [Walk.batches_of_left hzero, ← hleft, w.pointLoop_batch chunkSize, batchLoop,
          List.foldlM_cons]
        cases hown : (w.batch step chunkSize).foldlM (t.addInterval order delta)
            (Scalar.ofInt 0) with
        | error found =>
            rw [(hbatch found).1 hown]
            rfl
        | ok sum =>
            cases hgoing : (w.batch step chunkSize).foldlM (t.addInterval order delta) total' with
            | error found =>
                rw [(hbatch found).2 hgoing] at hown
                cases hown
            | ok sum' => exact ih _ (by omega) (w.rest step chunkSize) (total + sum) sum' rfl

theorem addSums_batches (hpowers : t.PowersAgree) (w : Walk α) (chunkSize : Count) (total : α) :
    (Sampling.ofRule t order delta).addSums (w.batches step chunkSize) total =
      t.batchLoop order delta (w.batches step chunkSize) total := by
  induction hleft : w.left using Nat.strongRecOn generalizing w total with
  | _ left ih =>
      by_cases hzero : w.left = 0
      · rw [Walk.batches_of_done hzero]
        rfl
      · have hlt := w.left_rest_lt step chunkSize hzero
        rw [Walk.batches_of_left hzero, Sampling.addSums, batchLoop, List.foldlM_cons,
          List.foldlM_cons, Sampling.addBatch_eq hpowers order delta (Walk.batch_ne_nil hzero)]
        cases (w.batch step chunkSize).foldlM (t.addInterval order delta) (Scalar.ofInt 0) with
        | error fault => rfl
        | ok sum => exact ih _ (by omega) (w.rest step chunkSize) (total + sum) rfl

/-- The sampling of an integration. -/
def sampling (t : Tree α) (lower upper : α) (c : Configuration) : Sampling α :=
  .ofRule t c.order (c.order.scale (Step.between lower upper c.grain.val).width).delta

/-- The plan of a pool that integrates a tree. -/
def poolPlan (t : Tree α) (lower upper : α) (c : Configuration) : PoolPlan α :=
  ⟨t.sampling lower upper c, (Step.between lower upper c.grain.val).width, c.chunkSize, c.workers⟩

def batches (lower upper : α) (c : Configuration) : List (List α) :=
  (⟨lower, c.grain.val⟩ : Walk α).batches (Step.between lower upper c.grain.val).width c.chunkSize

theorem length_batches (lower upper : α) (c : Configuration) :
    (batches lower upper c).length = c.batchCount :=
  Walk.length_batches _ _ _

theorem movesLeft_begin (t : Tree α) (lower upper : α) (c : Configuration) (passes : Passes) :
    (Pool.begin (⟨lower, c.grain.val⟩ : Walk α) passes).movesLeft (t.poolPlan lower upper c) =
      5 * c.batchCount := by
  rw [Pool.movesLeft, ← length_batches lower upper c]
  rfl

theorem result_integrate_pooled {lower upper : α} {c : Configuration} {passes : Passes}
    (hpooled : ¬(c.workers.val = 1 ∨ c.batchCount = 1))
    (hgrain : Scalar.reaches α c.grain.val = true) :
    (t.integrate lower upper c passes).result =
      ((t.poolPlan lower upper c).sum c.batchCount ⟨lower, c.grain.val⟩ passes).result.map
        (· * (c.order.scale (Step.between lower upper c.grain.val).width).normalizer) := by
  rw [result_integrate hgrain]
  simp only [integrateBy, if_neg hpooled]
  rfl

/-- Several workers that nobody cancels come to one outcome, however they take turns: a schedule has
no more than five moves for each batch, can go on until there is an outcome, and has the sum of the
sums of the batches, in batch order, for it. That is what the loop over the batches comes to, with
the fault of the loop over all points. -/
theorem integrate_by_workers (t : Tree α) (lower upper : α) (c : Configuration)
    (hworkers : 2 ≤ c.workers.val) (hbatches : 2 ≤ c.batchCount)
    (hgrain : Scalar.reaches α c.grain.val = true) :
    let step := (Step.between lower upper c.grain.val).width
    let scale := c.order.scale step
    let plan := t.poolPlan lower upper c
    let sum := (t.sampling lower upper c).addSums (batches lower upper c) (Scalar.ofInt 0)
    (∀ schedule last, .cancel ∉ schedule →
      (Pool.begin ⟨lower, c.grain.val⟩ .unlimited).run? plan schedule = some last →
        schedule.length ≤ 5 * c.batchCount ∧
        (last.outcome = none → ∃ move, move ≠ .cancel ∧ (last.move? plan move).isSome) ∧
        ∀ result, last.outcome = some result → result = sum.mapError .evaluation) ∧
    (t.integrate lower upper c .unlimited).result =
      (sum.map (· * scale.normalizer)).mapError .evaluation ∧
    (t.PowersAgree →
      sum = t.batchLoop c.order scale.delta (batches lower upper c) (Scalar.ofInt 0) ∧
      ∀ fault, sum = .error fault ↔
        t.pointLoop c.order scale.delta step c.grain.val lower (Scalar.ofInt 0) =
          .error fault) := by
  intro step scale plan sum
  let walk : Walk α := ⟨lower, c.grain.val⟩
  have hbegin : (Pool.begin walk .unlimited).Heads plan (sum.mapError .evaluation) :=
    Pool.heads_begin c.grain.property (PoolPlan.addAll_eq (batches lower upper c) (Scalar.ofInt 0))
  have hmoves : (Pool.begin walk .unlimited).movesLeft plan = 5 * c.batchCount :=
    t.movesLeft_begin lower upper c .unlimited
  refine ⟨?_, ?_, ?_⟩
  · intro schedule last hcancel hrun
    obtain ⟨hlast, hcount⟩ := hbegin.run hcancel hrun
    refine ⟨by omega, fun hopen => ⟨_, hlast.plainMove_isSome hopen⟩, hlast.outcome⟩
  · have halone : ¬(c.workers.val = 1 ∨ c.batchCount = 1) := by omega
    have hresult : (plan.sum c.batchCount walk .unlimited).result = sum.mapError .evaluation := by
      rw [PoolPlan.sum, hbegin.outcome_settle _ (Nat.le_of_eq hmoves), Option.getD_some]
    rw [result_integrate hgrain, ← map_mapError, ← hresult]
    simp only [integrateBy, if_neg halone]
    rfl
  · intro hpowers
    have hsum : sum = t.batchLoop c.order scale.delta (batches lower upper c) (Scalar.ofInt 0) :=
      addSums_batches hpowers walk c.chunkSize (Scalar.ofInt 0)
    refine ⟨hsum, ?_⟩
    intro fault
    rw [hsum]
    exact batchLoop_error_iff walk c.chunkSize (Scalar.ofInt 0) (Scalar.ofInt 0) fault

/-- Two workers for the square of the variable, in two batches of two sub-intervals. -/
theorem integrate_parabola_by_workers :
    let c : Configuration := ⟨2, ⟨4, by decide⟩, ⟨2, by decide⟩, ⟨2, by decide⟩⟩
    let sum := (parabola.sampling 0 1 c).addSums (batches 0 1 c) (Scalar.ofInt 0)
    (parabola.integrate 0 1 c .unlimited).result =
      (sum.map (· * (c.order.scale (Step.between (0 : Float) 1 4).width).normalizer)).mapError
        .evaluation ∧
    sum = parabola.batchLoop 2 (c.order.scale (Step.between (0 : Float) 1 4).width).delta
      (batches 0 1 c) (Scalar.ofInt 0) := by
  intro c sum
  have h := integrate_by_workers parabola 0 1 c (by decide) (by decide) (by decide)
  exact ⟨h.2.1, (h.2.2 powersAgree_parabola).1⟩

end Tree

end PrefixIntegral
