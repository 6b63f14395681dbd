import Mathlib.Algebra.BigOperators.Intervals
import PrefixIntegral.Proofs.Positivity

namespace PrefixIntegral

namespace Tree

variable {α : Type} [Scalar α] {t : Tree α} {order : Order} {delta step : α}

theorem pointLoop_total (hadd : Scalar.AddsExactly α) (count : Nat) (x a b : α) :
    t.pointLoop order delta step count x (a + b) =
      (t.pointLoop order delta step count x b).map (a + ·) := by
  induction count generalizing x b with
  | zero => rfl
  | succ count ih =>
      rw [pointLoop, pointLoop, addInterval_add hadd]
      cases t.addInterval order delta b x with
      | error fault => rfl
      | ok total => exact ih (x + step) total

theorem pointLoop_pieces (hadd : Scalar.AddsExactly α) (first second : Nat) (x : α) :
    t.pointLoop order delta step (first + second) x (Scalar.ofInt 0) =
      (t.pointLoop order delta step first x (Scalar.ofInt 0)).bind fun left =>
        (t.pointLoop order delta step second (x + Scalar.times first step) (Scalar.ofInt 0)).map
          (left + ·) := by
  rw [pointLoop_add, Walk.advance_eq hadd]
  congr 1
  funext left
  rw [← pointLoop_total hadd, hadd.add_zero]

end Tree

variable [Elementary ℚ]

namespace Order

variable {order : Order} {step : ℚ}

omit [Elementary ℚ] in
theorem weights_mirror (order : Order) {j : Nat} (hj : j ≤ order.val) :
    order.weights.getD (order.val - j) 0 = order.weights.getD j 0 := by
  fin_cases order <;> dsimp only at hj <;> interval_cases j <;> rfl

/-- A rule with a point at either end makes of a mirror image what it makes of the function on the
other side. -/
theorem estimate_mirror (hne : order ≠ 0) (step : ℚ) (f : ℚ → ℚ) (axis x : ℚ) :
    order.estimate step (fun y => f (axis - y)) x = order.estimate step f (axis - x - step) := by
  have hpanels := val_mul_delta hne step
  refine congrArg (· * (order.scale step).normalizer) ?_
  rw [weigh, weigh, ← Finset.sum_range_reflect]
  refine Finset.sum_congr rfl fun j hj => ?_
  have hj : j ≤ order.val := Nat.le_of_lt_succ (Finset.mem_range.1 hj)
  have hpoint : axis - (x + ((order.val - j : ℕ) : ℚ) * (order.scale step).delta) =
      axis - x - step + j * (order.scale step).delta := by
    rw [Nat.cast_sub hj, sub_mul, hpanels]
    ring
  rw [show order.val + 1 - 1 - j = order.val - j by omega, weights_mirror order hj, hpoint]

/-- Over an interval a function and its mirror image in the middle of the interval come to the
same. -/
theorem composite_mirror (hne : order ≠ 0) (step : ℚ) (count : Nat) (f : ℚ → ℚ) (x : ℚ) :
    order.composite step count (fun y => f (x + (x + count * step) - y)) x =
      order.composite step count f x := by
  rw [composite, composite, ← Finset.sum_range_reflect]
  refine Finset.sum_congr rfl fun i hi => ?_
  have hi : i + 1 ≤ count := Finset.mem_range.1 hi
  rw [estimate_mirror hne]
  refine congrArg _ ?_
  rw [Nat.sub_sub, Nat.cast_sub (by omega)]
  push_cast
  ring

end Order

namespace Tree

variable {t : Tree ℚ}

omit [Elementary ℚ] in
theorem steps_of_span {lower step : ℚ} (hstep : 0 < step) (c : Configuration) :
    |lower + c.grain.val * step - lower| / c.grain.val = step := by
  have hgrain : (0 : ℚ) < c.grain.val := Nat.cast_pos.2 c.grain.property
  rw [add_sub_cancel_left, abs_of_pos (mul_pos hgrain hstep), mul_div_cancel_left₀ _ hgrain.ne']

theorem result_integrate_steps (hpowers : t.PowersAgree) (lower : ℚ) {step : ℚ} (hstep : 0 < step)
    (c : Configuration) :
    (t.integrate lower (lower + c.grain.val * step) c .unlimited).result =
      ((t.pointLoop c.order (c.order.scale step).delta step c.grain.val lower
        (Scalar.ofInt 0)).map (· * (c.order.scale step).normalizer)).mapError .evaluation := by
  rw [result_integrate_of_addsExactly Scalar.addsExactly_rational hpowers rfl, loopIntegral,
    Step.width_between, Int.cast_natCast, steps_of_span hstep c]

/-- Cut where a sub-interval ends, an integration has the sum of the values of its pieces, or the
fault of the first piece with one. -/
theorem result_integrate_pieces (hpowers : t.PowersAgree) (lower : ℚ) {step : ℚ} (hstep : 0 < step)
    {whole first second : Configuration} (hfirst : first.order = whole.order)
    (hsecond : second.order = whole.order)
    (hgrain : whole.grain.val = first.grain.val + second.grain.val) :
    let middle := lower + first.grain.val * step
    let upper := lower + whole.grain.val * step
    (t.integrate lower upper whole .unlimited).result =
      (t.integrate lower middle first .unlimited).result.bind fun left =>
        (t.integrate middle upper second .unlimited).result.map (left + ·) := by
  intro middle upper
  have hupper : upper = middle + second.grain.val * step := by
    simp only [upper, middle, hgrain, Nat.cast_add]
    ring
  have hmiddle : lower + Scalar.times first.grain.val step = middle := by
    rw [Scalar.times_rational]
  have hright := result_integrate_steps hpowers middle hstep second
  rw [← hupper, hsecond] at hright
  rw [hright, result_integrate_steps hpowers lower hstep first,
    result_integrate_steps hpowers lower hstep whole, hfirst, hgrain,
    pointLoop_pieces Scalar.addsExactly_rational, hmiddle]
  -- The sums of both pieces are scaled by the same factor.
  cases t.pointLoop whole.order (whole.order.scale step).delta step first.grain.val lower
    (Scalar.ofInt 0) with
  | error fault => rfl
  | ok left =>
      cases t.pointLoop whole.order (whole.order.scale step).delta step second.grain.val middle
        (Scalar.ofInt 0) with
      | error fault => rfl
      | ok right => exact congrArg Except.ok (add_mul left right _)

/-- Of an interval that is cut where a sub-interval ends, the integral is the sum of those of its
two pieces, whatever the batches and the workers of all three; where the whole has none, it has the
fault of the first piece with one. Between ascending limits every rule but that of order zero finds
the same integral for a function and for its mirror image in the middle of the interval. -/
theorem integrate_pieces_and_mirror :
    (∀ (t : Tree ℚ) (lower step : ℚ) (whole first second : Configuration), 0 < step →
      first.order = whole.order → second.order = whole.order →
      whole.grain.val = first.grain.val + second.grain.val →
      let middle := lower + first.grain.val * step
      let upper := lower + whole.grain.val * step
      let left := (t.integrate lower middle first .unlimited).result
      let right := (t.integrate middle upper second .unlimited).result
      (∀ f : ℚ → ℚ, t.Computes f {x | x ∈ samplePoints lower upper whole} →
        ∃ a b, left = .ok a ∧ right = .ok b ∧
          (t.integrate lower upper whole .unlimited).result = .ok (a + b)) ∧
      (t.PowersAgree → (t.integrate lower upper whole .unlimited).result =
        left.bind fun a => right.map (a + ·))) ∧
    (∀ (t u : Tree ℚ) (f : ℚ → ℚ) (lower upper : ℚ) (c : Configuration), c.order ≠ 0 →
      lower ≤ upper → t.Computes f {x | x ∈ samplePoints lower upper c} →
      u.Computes (fun x => f (lower + upper - x)) {x | x ∈ samplePoints lower upper c} →
      ∃ value, (t.integrate lower upper c .unlimited).result = .ok value ∧
        (u.integrate lower upper c .unlimited).result = .ok value) := by
  constructor
  · intro t lower step whole first second hstep hfirst hsecond hgrain middle upper left right
    have hpieces : t.PowersAgree → (t.integrate lower upper whole .unlimited).result =
        left.bind fun a => right.map (a + ·) := fun hpowers =>
      result_integrate_pieces hpowers lower hstep hfirst hsecond hgrain
    refine ⟨fun f hf => ?_, hpieces⟩
    have hwhole := hpieces hf.powersAgree
    obtain ⟨a, ha, hsum⟩ := bind_eq_ok_iff.1 (hwhole.symm.trans hf.result_integrate)
    obtain ⟨b, hb, -⟩ := map_eq_ok_iff.1 hsum
    refine ⟨a, b, ha, hb, ?_⟩
    rw [hwhole, ha, hb]
    rfl
  · intro t u f lower upper c hne hle hf hmirror
    refine ⟨_, hf.result_integrate, hmirror.result_integrate.trans (congrArg _ ?_)⟩
    have hupper : lower + c.grain.val * (|upper - lower| / c.grain.val) = upper := by
      rw [grain_mul_step, abs_of_nonneg (sub_nonneg.2 hle), add_sub_cancel]
    have hcomposite :=
      Order.composite_mirror hne (|upper - lower| / c.grain.val) c.grain.val f lower
    rwa [hupper] at hcomposite

theorem fits_mirrored : (.apply .sin [.apply .sub [.leaf (.constant (1 / 2)), .leaf .argument]] :
    Term (Leaf ℚ)).Fits Leaf.IsNumber :=
  .single rfl (.pair rfl (.leaf rfl) (.leaf trivial))

omit [Elementary ℚ] in
/-- A function with a bend between minus one and three halves, by the rule of order three: in five
sub-intervals, in two and then three of them, and in the mirror. -/
theorem integrate_bend_pieces_and_mirror :
    letI := Elementary.ofSine fun x => |x - 1 / 3|
    let c : Count → Count → Configuration := fun grain chunkSize =>
      ⟨3, grain, chunkSize, ⟨2, by decide⟩⟩
    let whole := (sine.integrate (-1) (3 / 2) (c ⟨5, by decide⟩ ⟨2, by decide⟩) .unlimited).result
    (∃ a b, (sine.integrate (-1) 0 (c ⟨2, by decide⟩ ⟨1, by decide⟩) .unlimited).result = .ok a ∧
      (sine.integrate 0 (3 / 2) (c ⟨3, by decide⟩ ⟨4, by decide⟩) .unlimited).result = .ok b ∧
      whole = .ok (a + b)) ∧
    ∃ value, whole = .ok value ∧
      ((Term.toTree _ fits_mirrored ['x']).integrate (-1) (3 / 2)
        (c ⟨5, by decide⟩ ⟨2, by decide⟩) .unlimited).result = .ok value := by
  let _ := Elementary.ofSine fun x => |x - 1 / 3|
  intro c whole
  obtain ⟨hpieces, hmirror⟩ := integrate_pieces_and_mirror
  constructor
  · have hbend := (hpieces sine (-1) (1 / 2) (c ⟨5, by decide⟩ ⟨2, by decide⟩)
      (c ⟨2, by decide⟩ ⟨1, by decide⟩) (c ⟨3, by decide⟩ ⟨4, by decide⟩) (by norm_num) rfl rfl
      rfl).1 _ (computes_sine _ _)
    have hmiddle : -1 + ((2 : ℕ) : ℚ) * (1 / 2) = 0 := by norm_num
    have hupper : -1 + ((5 : ℕ) : ℚ) * (1 / 2) = 3 / 2 := by norm_num
    dsimp only [c] at hbend
    rwa [hmiddle, hupper] at hbend
  · refine hmirror _ _ _ _ _ _ (by decide) (by norm_num) (computes_sine _ _) ?_
    refine computes_toTree fits_mirrored _ ?_ fun x _ => congrArg Except.ok ?_
    · simp [Term.nodes, Term.nodesOfAll, Node.operator, Leaf.node, Node.argument, Node.constant]
    · show |1 / 2 - x - 1 / 3| = |-1 + 3 / 2 - x - 1 / 3|
      norm_num

end Tree

end PrefixIntegral
