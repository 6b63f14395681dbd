import PrefixIntegral.Proofs.Polynomials

namespace PrefixIntegral.Tree

section Agreement

variable {α : Type} [Scalar α]

/-- Where addition is exact, a tree that has values at all sample points is integrated to the
composite sum of these: by the plain loop, and by any number of workers in batches of any length,
under every schedule of theirs. The `i`-th sub-interval starts `i` steps after the lower limit. -/
theorem integrate_agrees (t : Tree α) (hadd : Scalar.AddsExactly α) (hpowers : t.PowersAgree)
    {lower upper : α} {order : Order} {grain : Count}
    (hgrain : Scalar.reaches α grain.val = true) {f : α → α}
    (hvalues : ∀ i < grain.val, ∀ j ≤ order.val,
      let step := (Step.between lower upper grain.val).width
      let point := lower + Scalar.times i step + Scalar.ofNat j * (order.scale step).delta
      t.evaluate point = .ok (f point)) :
    let step := (Step.between lower upper grain.val).width
    let value := order.compositeSum step grain.val f lower
    t.loopIntegral order lower upper grain = .ok value ∧
      ∀ chunkSize workers : Count,
        let c : Configuration := ⟨order, grain, chunkSize, workers⟩
        (t.integrate lower upper c .unlimited).result = .ok value ∧
          ∀ schedule last result, .cancel ∉ schedule →
            (Pool.begin ⟨lower, grain.val⟩ .unlimited).run? (t.poolPlan lower upper c) schedule =
              some last →
            last.outcome = some result →
              result.map (· * (order.scale step).normalizer) = .ok value := by
  intro step value
  have hloop : t.loopIntegral order lower upper grain = .ok value :=
    loopIntegral_eq_compositeSum hadd hvalues
  refine ⟨hloop, fun chunkSize workers => ?_⟩
  intro c
  refine ⟨?_, ?_⟩
  · rw [result_integrate_of_addsExactly hadd hpowers hgrain, hloop]
    rfl
  · intro schedule last result hcancel hrun houtcome
    have hbegin : (Pool.begin ⟨lower, grain.val⟩ .unlimited).Heads (t.poolPlan lower upper c)
        ((t.sampling lower upper c).addSums (batches lower upper c) (Scalar.ofInt 0)
          |>.mapError .evaluation) :=
      Pool.heads_begin grain.property (PoolPlan.addAll_eq (batches lower upper c) (Scalar.ofInt 0))
    rw [(hbegin.run hcancel hrun).1.outcome result houtcome, addSums_eq_pointLoop hadd hpowers,
      map_mapError]
    exact congrArg (Except.mapError _) hloop

end Agreement

/-- The cube by the trapezoidal rule on five sub-intervals between zero and two, in batches of two
for three workers. -/
theorem integrate_cube_agrees :
    letI := Elementary.zero
    (cube.integrate 0 2 ⟨1, ⟨5, by decide⟩, ⟨2, by decide⟩, ⟨3, by decide⟩⟩ .unlimited).result =
      .ok (104 / 25) := by
  let _ := Elementary.zero
  have hvalues : ∀ x, cube.evaluate x = .ok (cube.polynomial.eval x) := fun x =>
    foldFrom_eval isPolynomial_cube x cube.size_pos
  have hagrees := @integrate_agrees ℚ _ cube Scalar.addsExactly_rational
    isPolynomial_cube.powersAgree 0 2 1 ⟨5, by decide⟩ rfl (fun x => cube.polynomial.eval x)
    fun _ _ _ _ => hvalues _
  rw [(hagrees.2 _ _).1, Order.compositeSum_rational, Step.width_between]
  norm_num [Order.composite, Order.estimate, Order.weigh, Order.scale, Order.weights,
    Order.weightSum, polynomial_cube, Finset.sum_range_succ]

end PrefixIntegral.Tree
