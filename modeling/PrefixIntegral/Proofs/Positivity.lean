import Mathlib.Algebra.Order.BigOperators.Group.Finset
import Mathlib.Tactic.FieldSimp
import Mathlib.Tactic.FinCases
import Mathlib.Tactic.Linarith
import Mathlib.Tactic.Positivity
import PrefixIntegral.Proofs.Integrands

/-!
Integrals as positive linear functionals. Over the rationals a rule makes of a function over a
sub-interval the width times a mean of values found in it: the weights are positive, they add up to
the sum that the rule divides by, and no sample point leaves the sub-interval. So an integration is
linear, keeps inequalities, and has the width of the whole interval for its total mass.
-/

namespace PrefixIntegral

variable [Elementary ℚ]

namespace Order

variable {order : Order} {step : ℚ} {f g : ℚ → ℚ} {x : ℚ} {count : Nat}

omit [Elementary ℚ] in
theorem sum_weights_rational (order : Order) :
    ∑ j ∈ Finset.range (order.val + 1), (order.weights.getD j 0 : ℚ) = order.weightSum := by
  fin_cases order <;> norm_num [Finset.sum_range_succ, weights, weightSum]

omit [Elementary ℚ] in
theorem weightSum_pos (order : Order) : (0 : ℚ) < order.weightSum := by
  fin_cases order <;> norm_num [weightSum]

theorem val_mul_delta (hne : order ≠ 0) (step : ℚ) :
    (order.val : ℚ) * (order.scale step).delta = step := by
  have hpanels : (order.val : ℚ) ≠ 0 := Nat.cast_ne_zero.2 fun hzero => hne (Fin.ext hzero)
  rw [scale, if_neg hne, Scalar.ofNat_rational, mul_div_cancel₀ _ hpanels]

theorem normalizer_eq (order : Order) (step : ℚ) :
    (order.scale step).normalizer = step / order.weightSum := by
  by_cases hzero : order = 0
  · rw [scale, if_pos hzero, Scalar.ofNat_rational]
  · have hpanels := val_mul_delta hzero step
    rw [scale, if_neg hzero] at hpanels ⊢
    simp only [Scalar.ofNat_rational] at hpanels ⊢
    rw [hpanels]

theorem normalizer_nonneg (order : Order) (hstep : 0 ≤ step) :
    0 ≤ (order.scale step).normalizer := by
  rw [normalizer_eq]
  exact div_nonneg hstep (weightSum_pos order).le

/-- No sample point leaves its sub-interval. -/
theorem sample_mem_Icc (hstep : 0 ≤ step) {j : Nat} (hj : j ≤ order.val) (x : ℚ) :
    x + j * (order.scale step).delta ∈ Set.Icc x (x + step) := by
  by_cases hzero : order = 0
  · subst hzero
    obtain rfl := Nat.le_zero.1 hj
    simpa using hstep
  · have hpanels := val_mul_delta hzero step
    have hj : (j : ℚ) ≤ order.val := Nat.cast_le.2 hj
    have hpos : (0 : ℚ) < order.val :=
      Nat.cast_pos.2 (Nat.pos_of_ne_zero fun h => hzero (Fin.ext h))
    have hdelta : 0 ≤ (order.scale step).delta := by
      refine nonneg_of_mul_nonneg_right ?_ hpos
      rwa [hpanels]
    have hle : j * (order.scale step).delta ≤ step := by
      calc j * (order.scale step).delta ≤ order.val * (order.scale step).delta :=
            mul_le_mul_of_nonneg_right hj hdelta
        _ = step := hpanels
    exact ⟨le_add_of_nonneg_right (mul_nonneg j.cast_nonneg hdelta), by gcongr⟩

theorem estimate_linear (order : Order) (step k : ℚ) (f g : ℚ → ℚ) (x : ℚ) :
    order.estimate step (fun y => k * f y + g y) x =
      k * order.estimate step f x + order.estimate step g x := by
  simp only [estimate, weigh, mul_add, Finset.sum_add_distrib, add_mul, Finset.mul_sum,
    Finset.sum_mul]
  refine congrArg (· + _) (Finset.sum_congr rfl fun j _ => ?_)
  ring

theorem estimate_mono (hstep : 0 ≤ step) (h : ∀ y ∈ Set.Icc x (x + step), f y ≤ g y) :
    order.estimate step f x ≤ order.estimate step g x := by
  refine mul_le_mul_of_nonneg_right ?_ (normalizer_nonneg order hstep)
  refine Finset.sum_le_sum fun j hj => mul_le_mul_of_nonneg_left ?_ (Nat.cast_nonneg _)
  exact h _ (sample_mem_Icc hstep (Nat.le_of_lt_succ (Finset.mem_range.1 hj)) x)

theorem estimate_const (order : Order) (step value x : ℚ) :
    order.estimate step (fun _ => value) x = value * step := by
  rw [estimate, weigh, ← Finset.sum_mul, sum_weights_rational, normalizer_eq]
  have := (weightSum_pos order).ne'
  field_simp

theorem composite_linear (order : Order) (step : ℚ) (count : Nat) (k : ℚ) (f g : ℚ → ℚ) (x : ℚ) :
    order.composite step count (fun y => k * f y + g y) x =
      k * order.composite step count f x + order.composite step count g x := by
  simp only [composite, estimate_linear, Finset.sum_add_distrib, Finset.mul_sum]

theorem composite_const (order : Order) (step : ℚ) (count : Nat) (value x : ℚ) :
    order.composite step count (fun _ => value) x = value * (count * step) := by
  simp only [composite, estimate_const, Finset.sum_const, Finset.card_range, nsmul_eq_mul]
  ring

omit [Elementary ℚ] in
theorem interval_subset (hstep : 0 ≤ step) {i : Nat} (hi : i < count) (x : ℚ) :
    Set.Icc (x + i * step) (x + i * step + step) ⊆ Set.Icc x (x + count * step) := by
  have hnext : (i : ℚ) + 1 ≤ count := by exact_mod_cast hi
  refine Set.Icc_subset_Icc (le_add_of_nonneg_right (mul_nonneg i.cast_nonneg hstep)) ?_
  calc x + i * step + step = x + (i + 1) * step := by ring
    _ ≤ x + count * step := by gcongr

theorem composite_mono (hstep : 0 ≤ step)
    (h : ∀ y ∈ Set.Icc x (x + count * step), f y ≤ g y) :
    order.composite step count f x ≤ order.composite step count g x := by
  refine Finset.sum_le_sum fun i hi => estimate_mono hstep fun y hy => h y ?_
  exact interval_subset hstep (Finset.mem_range.1 hi) x hy

end Order

namespace Tree

variable {lower upper : ℚ} {c : Configuration}

theorem mem_span_of_mem_samplePoints {point : ℚ} (h : point ∈ samplePoints lower upper c) :
    point ∈ span lower upper := by
  obtain ⟨i, hi, j, hj, rfl⟩ := mem_samplePoints.1 h
  have hstep := step_nonneg lower upper c
  have hmem := Order.interval_subset hstep hi lower (Order.sample_mem_Icc hstep hj _)
  rwa [grain_mul_step] at hmem

/-- The points of an integration are as many as announced, and none leaves the interval from the
first limit on over the distance of both. On trees that have values at these points the integration
is a positive linear functional, whose total mass is this distance. -/
theorem integrate_positive_linear (lower upper : ℚ) (c : Configuration) :
    let points := {x | x ∈ samplePoints lower upper c}
    let result := fun t : Tree ℚ => (t.integrate lower upper c .unlimited).result
    ((samplePoints lower upper c).length = c.grain.val * (c.order.val + 1) ∧
      points ⊆ span lower upper) ∧
    (∀ (t u v : Tree ℚ) (f g : ℚ → ℚ) (k : ℚ), t.Computes f points → u.Computes g points →
      v.Computes (fun x => k * f x + g x) points →
      ∃ first second, result t = .ok first ∧ result u = .ok second ∧
        result v = .ok (k * first + second)) ∧
    (∀ (t u : Tree ℚ) (f g : ℚ → ℚ), t.Computes f points → u.Computes g points →
      (∀ x ∈ span lower upper, f x ≤ g x) →
      ∃ first second, result t = .ok first ∧ result u = .ok second ∧ first ≤ second) ∧
    (∀ (t : Tree ℚ) (f : ℚ → ℚ) (least greatest : ℚ), t.Computes f points →
      (∀ x ∈ span lower upper, least ≤ f x ∧ f x ≤ greatest) →
      ∃ value, result t = .ok value ∧
        least * |upper - lower| ≤ value ∧ value ≤ greatest * |upper - lower|) := by
  intro points result
  have hstep := step_nonneg lower upper c
  have hspan : span lower upper =
      Set.Icc lower (lower + c.grain.val * (|upper - lower| / c.grain.val)) := by
    rw [grain_mul_step, span]
  have hmass : ∀ value, c.order.composite (|upper - lower| / c.grain.val) c.grain.val
      (fun _ => value) lower = value * |upper - lower| := by
    intro value
    rw [Order.composite_const, grain_mul_step]
  refine ⟨⟨length_samplePoints, fun x hx => mem_span_of_mem_samplePoints hx⟩, ?_, ?_, ?_⟩
  · intro t u v f g k ht hu hv
    refine ⟨_, _, ht.result_integrate, hu.result_integrate, hv.result_integrate.trans ?_⟩
    rw [Order.composite_linear]
  · intro t u f g ht hu hle
    rw [hspan] at hle
    exact ⟨_, _, ht.result_integrate, hu.result_integrate, Order.composite_mono hstep hle⟩
  · intro t f least greatest ht hbounds
    rw [hspan] at hbounds
    refine ⟨_, ht.result_integrate, ?_, ?_⟩
    · rw [← hmass]
      exact Order.composite_mono hstep fun x hx => (hbounds x hx).1
    · rw [← hmass]
      exact Order.composite_mono hstep fun x hx => (hbounds x hx).2

theorem fits_square : (.apply .sqr [.leaf .argument] : Term (Leaf ℚ)).Fits Leaf.IsNumber :=
  .single rfl (.leaf trivial)

theorem fits_mixture : (.apply .add [.apply .mul [.leaf (.constant 2), .apply .sin
    [.leaf .argument]], .apply .sqr [.leaf .argument]] : Term (Leaf ℚ)).Fits Leaf.IsNumber :=
  .pair rfl (.pair rfl (.leaf rfl) fits_sine) fits_square

omit [Elementary ℚ] in
/-- A function with a bend, the square, and twice the one and the other, from one forward to three
in two batches for two workers. -/
theorem integrate_positive_linear_bend :
    letI := Elementary.ofSine fun x => |x - 2|
    let c : Configuration := ⟨4, ⟨3, by decide⟩, ⟨2, by decide⟩, ⟨2, by decide⟩⟩
    let result := fun t : Tree ℚ => (t.integrate 1 (-1) c .unlimited).result
    let square := Term.toTree _ fits_square ['x']
    (∃ first second, result sine = .ok first ∧ result square = .ok second ∧
      result (Term.toTree _ fits_mixture ['x']) = .ok (2 * first + second)) ∧
    (∃ first second, result sine = .ok first ∧ result square = .ok second ∧ first ≤ second) ∧
    ∃ value, result sine = .ok value ∧ 0 ≤ value ∧ value ≤ 2 := by
  let _ := Elementary.ofSine fun x => |x - 2|
  intro c result square
  have hsine : sine.Computes (fun x => |x - 2|) {x | x ∈ samplePoints 1 (-1) c} :=
    computes_sine _ _
  have hsquare : square.Computes (fun x => x * x) {x | x ∈ samplePoints 1 (-1) c} := by
    refine computes_toTree fits_square _ ?_ fun x _ => congrArg Except.ok (Scalar.power_two x)
    simp [Term.nodes, Term.nodesOfAll, Node.operator, Leaf.node, Node.argument]
  have hmixture : (Term.toTree _ fits_mixture ['x']).Computes (fun x => 2 * |x - 2| + x * x)
      {x | x ∈ samplePoints 1 (-1) c} := by
    refine computes_toTree fits_mixture _ ?_ fun x _ => congrArg Except.ok ?_
    · simp [Term.nodes, Term.nodesOfAll, Node.operator, Leaf.node, Node.argument, Node.constant]
    · show 0 + 1 * 2 * |x - 2| + Scalar.power x (Scalar.ofInt 2) = _
      rw [Scalar.power_two, zero_add, one_mul]
  have hspan : ∀ x ∈ span (1 : ℚ) (-1), 1 ≤ x ∧ x ≤ 3 := by
    rintro x ⟨hlower, hupper⟩
    exact ⟨hlower, by norm_num at hupper; exact hupper⟩
  obtain ⟨-, hlinear, hmono, hbounds⟩ := integrate_positive_linear 1 (-1) c
  refine ⟨hlinear _ _ _ _ _ 2 hsine hsquare hmixture, hmono _ _ _ _ hsine hsquare ?_, ?_⟩
  · intro x hx
    obtain ⟨hlower, hupper⟩ := hspan x hx
    exact abs_le.2 ⟨by nlinarith, by nlinarith⟩
  · obtain ⟨value, hvalue, hleast, hgreatest⟩ := hbounds sine _ 0 1 hsine fun x hx => by
      obtain ⟨hlower, hupper⟩ := hspan x hx
      exact ⟨abs_nonneg _, abs_le.2 ⟨by linarith, by linarith⟩⟩
    exact ⟨value, hvalue, by linarith, by norm_num at hgreatest; exact hgreatest⟩

end Tree

end PrefixIntegral
