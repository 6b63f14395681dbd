import PrefixIntegral.Proofs.Formulas
import PrefixIntegral.Proofs.Tolerance
import PrefixIntegral.Quadrature.Run

namespace PrefixIntegral

open Binary64 (Alike)

namespace Sampling

variable {a b : Tree Float}

variable (order : Order) (delta : Float)

theorem result_replay_eq (hsame : a.same b = true) (htolerates : a.ToleratesSigns b)
    (fault : EvaluationFault) (xs : List Float) :
    ((ofRule a order delta).replay fault xs).result =
      ((ofRule b order delta).replay fault xs).result := by
  induction xs with
  | nil => rfl
  | cons x rest ih =>
      have hagree := Tree.agree_evaluate hsame htolerates x
      rw [replay, replay, Evaluated.result_bind, Evaluated.result_bind]
      dsimp only [evaluateAt, ofRule] at ih ⊢
      generalize a.evaluate x = first at hagree
      generalize b.evaluate x = second at hagree
      cases hagree with
      | ok hvw => exact ih
      | error fault => rfl

theorem agree_values (hsame : a.same b = true) (htolerates : a.ToleratesSigns b)
    (starts : List Float) :
    AgreeUpTo (List.Forall₂ Alike) ((ofRule a order delta).values starts).result
      ((ofRule b order delta).values starts).result := by
  have hpoints : (ofRule b order delta).points starts = (ofRule a order delta).points starts := rfl
  rw [values, values, hpoints, Evaluated.result_handle, Evaluated.result_handle]
  simp only [result_replay_eq order delta hsame htolerates, Evaluated.result_map, evaluateGrid]
  generalize (ofRule a order delta).points starts = points
  have hagree := Tree.agree_evaluateOn_lanes hsame htolerates points.lanes
  unfold Tree.evaluateMany
  dsimp only [ofRule]
  generalize a.evaluateOn Carrier.lanes points.lanes = first at hagree
  generalize b.evaluateOn Carrier.lanes points.lanes = second at hagree
  cases hagree with
  | ok hvw => exact .ok ((hvw.spread _).imp fun _ _ hxy => hxy.1)
  | error fault =>
      refine (AgreeUpTo.eq_iff.2 rfl).mono ?_
      rintro vs _ rfl
      exact List.forall₂_same.2 fun v _ => Binary64.Alike.refl v

def SameSum (total total' : Float) : Prop := total = total' ∧ total ≠ -0

theorem sameSum_foldl {vs ws : List Float} (h : List.Forall₂ Alike vs ws) (factors : List Float)
    {total : Float} (htotal : total ≠ -0) :
    SameSum ((factors.zip vs).foldl (fun total term => total + term.1 * term.2) total)
      ((factors.zip ws).foldl (fun total term => total + term.1 * term.2) total) := by
  induction h generalizing factors total with
  | nil => exact ⟨by rw [List.zip_nil_right], by rwa [List.zip_nil_right]⟩
  | @cons v w vs ws hvw _ ih =>
      cases factors with
      | nil => exact ⟨rfl, htotal⟩
      | cons factor rest =>
          have hterm : Alike (factor * v) (factor * w) := (Binary64.Alike.refl factor).mul hvw
          have hsum := ih rest (Binary64.add_ne_negZero htotal (factor * v))
          rw [List.zip_cons_cons, List.zip_cons_cons, List.foldl_cons, List.foldl_cons]
          rwa [← hterm.add_right htotal]

theorem agree_addBatch (hsame : a.same b = true) (htolerates : a.ToleratesSigns b)
    (starts : List Float) {total : Float} (htotal : total ≠ -0) :
    AgreeUpTo SameSum ((ofRule a order delta).addBatch starts total).result
      ((ofRule b order delta).addBatch starts total).result := by
  refine (agree_values order delta hsame htolerates starts).map ?_
  intro vs ws hvw
  exact sameSum_foldl hvw _ htotal

theorem sumInOrder_eq_of_same (hsame : a.same b = true) (htolerates : a.ToleratesSigns b)
    (step : Float) (chunkSize : Count) (w : Walk Float) (passes : Passes) (added : Nat)
    {total : Float} (htotal : total ≠ -0) :
    (ofRule a order delta).sumInOrder step chunkSize w passes added total =
      (ofRule b order delta).sumInOrder step chunkSize w passes added total := by
  fun_induction sumInOrder (ofRule a order delta) step chunkSize w passes added total with
  | case1 w passes added total hzero => rw [sumInOrder, dif_pos hzero]
  | case2 w passes added total hne hallows fault hbatch =>
      rw [sumInOrder, dif_neg hne, if_pos hallows]
      have hagree := agree_addBatch order delta hsame htolerates (w.batch step chunkSize) htotal
      rw [hbatch] at hagree
      generalize ((ofRule b order delta).addBatch _ _).result = second at hagree
      cases hagree
      rfl
  | case3 w passes added total hne hallows next hbatch _ ih =>
      rw [sumInOrder.eq_def (ofRule b order delta), dif_neg hne, if_pos hallows]
      have hagree := agree_addBatch order delta hsame htolerates (w.batch step chunkSize) htotal
      rw [hbatch] at hagree
      generalize ((ofRule b order delta).addBatch _ _).result = second at hagree
      cases hagree with
      | ok hsum =>
          obtain ⟨rfl, hnext⟩ := hsum
          exact ih hnext
  | case4 w passes added total hne hallows => rw [sumInOrder, dif_neg hne, if_neg hallows]

end Sampling

namespace PoolPlan

variable {plan plan' : PoolPlan Float}

theorem batchSum_eq_of_same {a b : Tree Float} (hsame : a.same b = true)
    (htolerates : a.ToleratesSigns b) (order : Order) (delta step : Float)
    (chunkSize workers : Count) (starts : List Float) :
    batchSum ⟨.ofRule a order delta, step, chunkSize, workers⟩ starts =
      batchSum ⟨.ofRule b order delta, step, chunkSize, workers⟩ starts := by
  have hzero : (Scalar.ofInt 0 : Float) ≠ -0 := by decide
  have hagree := Sampling.agree_addBatch order delta hsame htolerates starts hzero
  unfold batchSum
  dsimp only
  generalize ((Sampling.ofRule a order delta).addBatch starts _).result = first at hagree
  generalize ((Sampling.ofRule b order delta).addBatch starts _).result = second at hagree
  cases hagree with
  | ok hsum => rw [hsum.1]
  | error fault => rfl

theorem settle_congr {sampling sampling' : Sampling Float} {step : Float}
    {chunkSize workers : Count}
    (h : ∀ starts, batchSum ⟨sampling, step, chunkSize, workers⟩ starts =
      batchSum ⟨sampling', step, chunkSize, workers⟩ starts) (moves : Nat) (p : Pool Float) :
    Pool.settle ⟨sampling, step, chunkSize, workers⟩ moves p =
      Pool.settle ⟨sampling', step, chunkSize, workers⟩ moves p := by
  have hmove (p : Pool Float) (move : Move) :
      p.move? ⟨sampling, step, chunkSize, workers⟩ move =
        p.move? ⟨sampling', step, chunkSize, workers⟩ move := by
    cases move with
    | finish flight =>
        unfold Pool.move? Pool.finish?
        simp only [h]
    | submit | take | check | collect | cancel => rfl
  induction moves generalizing p with
  | zero => rfl
  | succ moves ih =>
      have hplain : p.plainMove ⟨sampling, step, chunkSize, workers⟩ =
          p.plainMove ⟨sampling', step, chunkSize, workers⟩ := rfl
      rw [Pool.settle, Pool.settle, hmove, hplain]
      cases p.move? ⟨sampling', step, chunkSize, workers⟩ _ with
      | none => rfl
      | some next => exact if_congr Iff.rfl rfl (ih next)

end PoolPlan

namespace Tree

variable {a b : Tree Float}

theorem integrate_eq_of_same (hsame : a.same b = true) (htolerates : a.ToleratesSigns b)
    (lower upper : Float) (c : Configuration) (passes : Passes) :
    a.integrate lower upper c passes = b.integrate lower upper c passes := by
  have hzero : (Scalar.ofInt 0 : Float) ≠ -0 := by decide
  have hby (step : Step Float) :
      a.integrateBy step lower upper c passes = b.integrateBy step lower upper c passes := by
    have halone := Sampling.sumInOrder_eq_of_same c.order (c.order.scale step.width).delta hsame
      htolerates step.width c.chunkSize ⟨lower, c.grain.val⟩ passes 0 hzero
    have hpooled := PoolPlan.settle_congr (PoolPlan.batchSum_eq_of_same hsame htolerates c.order
      (c.order.scale step.width).delta step.width c.chunkSize c.workers)
    simp only [integrateBy, PoolPlan.sum, halone, hpooled]
  unfold integrate
  simp only [hby]

/-- Trees that are the same are interchangeable, as long as their operators tolerate constants that
are zeros of different signs. At every point they have the same value up to the sign of a zero, and
the identical one if no difference gets to the root, or the same fault. All their integrals are
identical, with all that happens on the way. -/
theorem interchangeable (hsame : a.same b = true) (htolerates : a.ToleratesSigns b) :
    (∀ x, AgreeUpTo Alike (a.evaluate x) (b.evaluate x)) ∧
      (¬a.SignsDiffer b 0 → ∀ x, a.evaluate x = b.evaluate x) ∧
        ∀ lower upper c passes,
          a.integrate lower upper c passes = b.integrate lower upper c passes := by
  refine ⟨fun x => ?_, fun hroot x => ?_, integrate_eq_of_same hsame htolerates⟩
  · exact (agree_evaluate hsame htolerates x).mono fun _ _ hvw => hvw.1
  · exact AgreeUpTo.eq_iff.1
      ((agree_evaluate hsame htolerates x).mono fun _ _ hvw => hvw.2 hroot)

end Tree

namespace Tree

theorem readNodes_positive : Formula.readNodes "(/ (* x 0) (+ 2 -0))".toList "x".toList =
    .ok [.operator .div [1, 4], .operator .mul [2, 3], .argument, .constant 0,
      .operator .add [5, 6], .constant 2, .constant (-0)] := by decide +kernel

theorem readNodes_negative : Formula.readNodes "(/ (* x -0) (+ 2 0))".toList "x".toList =
    .ok [.operator .div [1, 4], .operator .mul [2, 3], .argument, .constant (-0),
      .operator .add [5, 6], .constant 2, .constant 0] := by decide +kernel

theorem toleratesSigns_positive_negative :
    (Formula.treeOfNodes readNodes_positive).ToleratesSigns
      (Formula.treeOfNodes readNodes_negative) := by
  intro i hi op position child hkind hchild hdiffer
  have hsize : i < 7 := hi
  match i with
  | 0 =>
    cases hkind
    match position with
    | 0 => rfl
    | 1 =>
      cases hchild
      cases hdiffer with
      | constant _ _ hconstant => cases hconstant
      | operand _ hkind hpass =>
        cases hkind
        exact hpass.elim
    | position + 2 => cases hchild
  | 1 =>
    cases hkind
    exact trivial
  | 4 =>
    cases hkind
    exact trivial
  | 2 | 3 | 5 | 6 => cases hkind

theorem interchangeable_quotient :
    (Formula.treeOfNodes readNodes_positive).same (Formula.treeOfNodes readNodes_negative) = true ∧
      AgreeUpTo Alike ((Formula.treeOfNodes readNodes_positive).evaluate 3)
        ((Formula.treeOfNodes readNodes_negative).evaluate 3) ∧
      (Formula.treeOfNodes readNodes_positive).integrate 0 1 .default .unlimited =
        (Formula.treeOfNodes readNodes_negative).integrate 0 1 .default .unlimited := by
  have hsame : (Formula.treeOfNodes readNodes_positive).same
      (Formula.treeOfNodes readNodes_negative) = true := rfl
  obtain ⟨hvalues, -, hintegrals⟩ := interchangeable hsame toleratesSigns_positive_negative
  exact ⟨hsame, hvalues 3, hintegrals 0 1 .default .unlimited⟩

end Tree

namespace Formula

theorem readNodes_inverse :
    readNodes "(/ 1 0)".toList "x".toList =
        .ok [.operator .div [1, 2], .constant 1, .constant 0] ∧
      readNodes "(/ 1 -0)".toList "x".toList =
        .ok [.operator .div [1, 2], .constant 1, .constant (-0)] := by decide +kernel

theorem readNodes_product :
    readNodes "(* x 0)".toList "x".toList =
        .ok [.operator .mul [1, 2], .argument, .constant 0] ∧
      readNodes "(* x -0)".toList "x".toList =
        .ok [.operator .mul [1, 2], .argument, .constant (-0)] := by decide +kernel

/-- Of two formulas with the same tree one may have a value where the other has none, since a
divisor does not tolerate the sign of a zero. Where it is tolerated, values may differ in it. -/
theorem exists_same_evaluate_ne :
    (∃ a b : Tree Float, read "(/ 1 0)".toList "x".toList = .ok a ∧
      read "(/ 1 -0)".toList "x".toList = .ok b ∧ a.same b = true ∧
        a.evaluate 0 = .error (.divisionByZero 0) ∧ b.evaluate 0 = .ok (1 / -0)) ∧
    ∃ a b : Tree Float, read "(* x 0)".toList "x".toList = .ok a ∧
      read "(* x -0)".toList "x".toList = .ok b ∧ a.same b = true ∧
        a.evaluate 1 = .ok 0 ∧ b.evaluate 1 = .ok (-0) ∧ (0 : Float) ≠ -0 := by
  refine ⟨⟨_, _, read_eq_treeOfNodes readNodes_inverse.1,
    read_eq_treeOfNodes readNodes_inverse.2, ?_, ?_, ?_⟩,
    ⟨_, _, read_eq_treeOfNodes readNodes_product.1,
      read_eq_treeOfNodes readNodes_product.2, ?_, ?_, ?_, ?_⟩⟩
  all_goals decide +kernel

end Formula

end PrefixIntegral
