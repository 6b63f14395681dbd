import Mathlib.Analysis.SpecialFunctions.Integrals.Basic
import PrefixIntegral.Proofs.Exact
import PrefixIntegral.Proofs.FirstFault

namespace PrefixIntegral

open Polynomial

namespace Order

/-- The degree up to which a rule is exact. Rules of even order gain one from their symmetry. -/
def exactDegree : Order → Nat
  | 0 => 0
  | 1 => 1
  | 2 => 3
  | 3 => 3
  | 4 => 5
  | 5 => 5

end Order

def primitive (p : ℚ[X]) (x : ℚ) : ℚ :=
  ∑ k ∈ Finset.range (p.natDegree + 1), p.coeff k * (x ^ (k + 1) / ((k : ℚ) + 1))

theorem integral_eq_primitive (p : ℚ[X]) (lower upper : ℚ) :
    ∫ x in (lower : ℝ)..upper, (p.map (algebraMap ℚ ℝ)).eval x =
      ((primitive p upper - primitive p lower : ℚ) : ℝ) := by
  have heval : ∀ x : ℝ, (p.map (algebraMap ℚ ℝ)).eval x =
      ∑ k ∈ Finset.range (p.natDegree + 1), (p.coeff k : ℝ) * x ^ k := by
    intro x
    rw [eval_map, eval₂_eq_sum_range]
    rfl
  simp only [heval]
  rw [intervalIntegral.integral_finsetSum fun k _ =>
    (Continuous.intervalIntegrable (by fun_prop) _ _)]
  simp only [intervalIntegral.integral_const_mul, integral_pow, primitive]
  push_cast
  rw [← Finset.sum_sub_distrib]
  refine Finset.sum_congr rfl fun k _ => ?_
  ring

variable [Elementary ℚ]

/-- A rule integrates the powers up to its degree exactly over a sub-interval. -/
theorem Order.estimate_pow {order : Order} {k : Nat} (hk : k ≤ order.exactDegree) (step x : ℚ) :
    order.estimate step (· ^ k) x = ((x + step) ^ (k + 1) - x ^ (k + 1)) / ((k : ℚ) + 1) := by
  -- One identity for each rule and power, with the sums over its sample points written out.
  unfold estimate weigh scale
  fin_cases order <;> dsimp only [exactDegree] at hk <;> interval_cases k <;>
    simp [Finset.sum_range_succ, weights, weightSum] <;> ring

theorem Order.estimate_polynomial {order : Order} {p : ℚ[X]}
    (hdegree : p.natDegree ≤ order.exactDegree) (step x : ℚ) :
    order.estimate step p.eval x = primitive p (x + step) - primitive p x := by
  have heval : ∀ y, p.eval y = ∑ k ∈ Finset.range (p.natDegree + 1), p.coeff k * y ^ k :=
    fun y => eval_eq_sum_range y
  have hsum : order.estimate step p.eval x =
      ∑ k ∈ Finset.range (p.natDegree + 1), p.coeff k * order.estimate step (· ^ k) x := by
    simp only [estimate, weigh, heval, Finset.mul_sum, Finset.sum_mul]
    rw [Finset.sum_comm]
    refine Finset.sum_congr rfl fun k _ => Finset.sum_congr rfl fun j _ => ?_
    ring
  rw [hsum, primitive, primitive, ← Finset.sum_sub_distrib]
  refine Finset.sum_congr rfl fun k hk => ?_
  have hle : k ≤ order.exactDegree := by
    have := Finset.mem_range.1 hk
    omega
  rw [estimate_pow hle]
  ring

/-- The sub-intervals add up to the whole interval. -/
theorem Order.composite_polynomial {order : Order} {p : ℚ[X]}
    (hdegree : p.natDegree ≤ order.exactDegree) (step : ℚ) (count : Nat) (x : ℚ) :
    order.composite step count p.eval x = primitive p (x + count * step) - primitive p x := by
  have hstep : ∀ i : ℕ, order.estimate step p.eval (x + i * step) =
      primitive p (x + ((i + 1 : ℕ) : ℚ) * step) - primitive p (x + i * step) := by
    intro i
    rw [estimate_polynomial hdegree, Nat.cast_succ, add_one_mul, add_assoc]
  simp only [composite, hstep]
  rw [Finset.sum_range_sub fun i : ℕ => primitive p (x + i * step)]
  simp

noncomputable def polynomialAt (_ : Nat) (entry : Node ℚ) (operands : List ℚ[X]) : ℚ[X] :=
  match entry.kind, operands with
  | .argument, _ => X
  | .constant, _ => C entry.value
  | .operator .add, _ => operands.sum
  | .operator .mul, _ => operands.prod
  | .operator .sub, [p, q] => p - q
  | .operator .sqr, [p] => p ^ 2
  | _, _ => 0

namespace Tree

variable {t : Tree ℚ}

/-- The operators of the tree are sums, differences, products and squares. -/
def IsPolynomial (t : Tree ℚ) : Prop :=
  ∀ i hi op, (t.node i hi).kind = .operator op → op ∈ [Operator.add, .sub, .mul, .sqr]

/-- The polynomial that such a tree denotes. -/
noncomputable def polynomial (t : Tree ℚ) : ℚ[X] := t.fold polynomialAt

theorem IsPolynomial.powersAgree (h : t.IsPolynomial) : t.PowersAgree := by
  rintro ⟨i, hi, hkind, -⟩
  have hmem := h i hi .pow hkind
  simp at hmem

theorem applyAt_eval {node : Nat} {op : Operator} (hop : op ∈ [Operator.add, .sub, .mul, .sqr])
    {entry : Node ℚ} (hkind : entry.kind = .operator op) {operands : List ℚ[X]}
    (haccepts : op.arity.accepts operands.length) (x : ℚ) :
    Carrier.point.applyAt node op (operands.map (eval x)) =
      .ok ((polynomialAt node entry operands).eval x) := by
  simp only [List.mem_cons, List.not_mem_nil, or_false] at hop
  rcases hop with rfl | rfl | rfl | rfl
  · have hsum : (operands.map (eval x)).foldl (· + ·) 0 = operands.sum.eval x := by
      rw [← List.sum_eq_foldl, eval_listSum]
    simp only [polynomialAt, hkind, ← hsum]
    rfl
  · obtain ⟨p, q, rfl⟩ := Carrier.exists_pair_of_accepts haccepts
    simp only [polynomialAt, hkind, eval_sub]
    rfl
  · have hprod : (operands.map (eval x)).foldl (· * ·) 1 = operands.prod.eval x := by
      rw [← List.prod_eq_foldl, eval_list_prod]
    simp only [polynomialAt, hkind, ← hprod]
    rfl
  · obtain ⟨p, rfl⟩ := Carrier.exists_single_of_accepts haccepts
    simp only [polynomialAt, hkind, sq, eval_mul, ← Scalar.power_two]
    rfl

theorem foldFrom_eval (h : t.IsPolynomial) (x : ℚ) {i : Nat} (hi : i < t.size) :
    t.foldFrom (Carrier.point.valueAt x) i hi =
      .ok ((t.foldFrom polynomialAt i hi).eval x) := by
  induction i, hi using place_induction with
  | node i hi ih =>
      rcases t.node_cases hi with ⟨op, hkind, haccepts⟩ | ⟨hkind | hkind, -⟩
      · have hoperands : t.operands (Carrier.point.valueAt x) i hi =
            ((t.operands polynomialAt i hi).map (eval x)).map .ok := by
          rw [operands, operands, List.map_map, List.map_map]
          refine List.map_congr_left ?_
          rintro ⟨child, hmem⟩ -
          exact ih child hmem
        rw [← t.length_operands polynomialAt hi] at haccepts
        rw [foldFrom_eq_applyAt hkind, mapM_id_eq_ok_iff.2 hoperands, t.foldFrom_eq polynomialAt]
        exact applyAt_eval (h i hi op hkind) hkind haccepts x
      · simp only [foldFrom_eq, Carrier.valueAt, polynomialAt, hkind, eval_X]
      · simp only [foldFrom_eq, Carrier.valueAt, polynomialAt, hkind, eval_C]
        rfl

/-- A tree of sums, differences, products and squares denotes a polynomial, and over any interval,
whatever the batches and the workers, a rule that is exact up to its degree finds the integral of
this polynomial. Limits in descending order stand for the interval from the first of them forward,
as long as they are apart. -/
theorem integrate_polynomial (t : Tree ℚ) (h : t.IsPolynomial) :
    (∀ x, t.evaluate x = .ok (t.polynomial.eval x)) ∧
      ∀ (lower upper : ℚ) (c : Configuration), t.polynomial.natDegree ≤ c.order.exactDegree →
        ∃ value : ℚ, (t.integrate lower upper c .unlimited).result = .ok value ∧
          (value : ℝ) = ∫ x in (lower : ℝ)..((lower + |upper - lower| : ℚ) : ℝ),
            (t.polynomial.map (algebraMap ℚ ℝ)).eval x := by
  have hvalues : ∀ x, t.evaluate x = .ok (t.polynomial.eval x) := fun x =>
    foldFrom_eval h x t.size_pos
  refine ⟨hvalues, fun lower upper c hdegree => ?_⟩
  have hgrain : (c.grain.val : ℚ) ≠ 0 := Nat.cast_ne_zero.2 (Nat.ne_of_gt c.grain.property)
  refine ⟨_, result_integrate_exact (f := fun x => t.polynomial.eval x) h.powersAgree
    fun _ _ _ _ => hvalues _, ?_⟩
  rw [Order.composite_polynomial hdegree, mul_div_cancel₀ _ hgrain, integral_eq_primitive]

end Tree

/-- Functions that are zero everywhere. -/
@[reducible] def Elementary.zero : Elementary ℚ :=
  ⟨fun _ _ => 0, fun _ => 0, fun _ => 0, fun _ => 0, fun _ => 0, fun _ => 0, fun _ => 0⟩

namespace Tree

def cube : Tree ℚ :=
  Term.toTree (.apply .mul [.leaf .argument, .apply .sqr [.leaf .argument]])
    (.apply rfl (by
      simp only [List.forall_mem_cons, List.not_mem_nil, false_implies, implies_true, and_true]
      exact ⟨.leaf trivial, .apply rfl (by simpa using .leaf trivial)⟩)) ['x']

theorem isPolynomial_cube : cube.IsPolynomial := by
  intro i hi op hkind
  have hsize : i < 4 := hi
  match i with
  | 0 | 2 =>
      cases hkind
      decide
  | 1 | 3 => cases hkind

theorem polynomial_cube : cube.polynomial = X * X ^ 2 := by
  have hsize : cube.size = 4 := rfl
  have hleft : cube.foldFrom polynomialAt 1 (by omega) = X := by
    rw [foldFrom_eq]
    rfl
  have hleaf : cube.foldFrom polynomialAt 3 (by omega) = X := by
    rw [foldFrom_eq]
    rfl
  have hright : cube.foldFrom polynomialAt 2 (by omega) = X ^ 2 := by
    rw [foldFrom_eq]
    exact congrArg (· ^ 2) hleaf
  show cube.foldFrom polynomialAt 0 _ = _
  rw [foldFrom_eq]
  show [cube.foldFrom polynomialAt 1 _, cube.foldFrom polynomialAt 2 _].prod = _
  rw [hleft, hright, List.prod_pair]

omit [Elementary ℚ] in
/-- The cube by the rule of order two, from one to minus one: that is forward to three. -/
theorem integrate_cube :
    letI := Elementary.zero
    ∃ value : ℚ, (cube.integrate 1 (-1) .default .unlimited).result = .ok value ∧
      (value : ℝ) = ∫ x in (1 : ℝ)..3, x ^ 3 := by
  let _ := Elementary.zero
  have hdegree : cube.polynomial.natDegree ≤ Configuration.default.order.exactDegree := by
    rw [polynomial_cube]
    have hthree : Configuration.default.order.exactDegree = 3 := rfl
    rw [hthree]
    compute_degree
  obtain ⟨value, hresult, hvalue⟩ :=
    (integrate_polynomial cube isPolynomial_cube).2 1 (-1) .default hdegree
  refine ⟨value, hresult, hvalue.trans ?_⟩
  have hupper : (((1 : ℚ) + |-1 - 1| : ℚ) : ℝ) = 3 := by norm_num
  rw [hupper, polynomial_cube]
  simp [← pow_succ']

end Tree

end PrefixIntegral
