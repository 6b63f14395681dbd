import PrefixIntegral.Proofs.Pieces

/-!
Refinement. Two rules that go over one interval find means of values of the function in it, so they
differ by no more than the function varies there, times the width. A coarse sub-interval is compared
so with the fine ones that it is cut into, and for a function with a Lipschitz bound the difference
vanishes with the coarse step.
-/

namespace PrefixIntegral

variable [Elementary ℚ]

namespace Order

variable {order other : Order} {step fine : ℚ} {f : ℚ → ℚ} {x : ℚ} {count many : Nat}

theorem composite_add (order : Order) (step : ℚ) (first second : Nat) (f : ℚ → ℚ) (x : ℚ) :
    order.composite step (first + second) f x =
      order.composite step first f x + order.composite step second f (x + first * step) := by
  rw [composite, Finset.sum_range_add, composite, composite]
  refine congrArg (_ + ·) (Finset.sum_congr rfl fun i _ => ?_)
  rw [Nat.cast_add, add_mul, add_assoc]

theorem composite_mul (order : Order) (step : ℚ) (factor count : Nat) (f : ℚ → ℚ) (x : ℚ) :
    order.composite step (factor * count) f x =
      ∑ i ∈ Finset.range count, order.composite step factor f (x + i * (factor * step)) := by
  induction count with
  | zero => rfl
  | succ count ih =>
      rw [Nat.mul_succ, composite_add, ih, Finset.sum_range_succ, Nat.cast_mul, mul_assoc,
        mul_left_comm (factor : ℚ)]

theorem composite_le_add (hstep : 0 ≤ step) (hfine : 0 ≤ fine)
    (hwidth : (count : ℚ) * step = many * fine) {gap : ℚ}
    (hgap : ∀ y ∈ Set.Icc x (x + count * step), ∀ z ∈ Set.Icc x (x + count * step),
      f y ≤ f z + gap) :
    order.composite step count f x ≤
      other.composite fine many f x + gap * (count * step) := by
  have hnonneg : 0 ≤ (count : ℚ) * step := mul_nonneg count.cast_nonneg hstep
  have habove : ∀ z ∈ Set.Icc x (x + count * step),
      order.composite step count f x ≤ (f z + gap) * (count * step) := by
    intro z hz
    rw [← composite_const order step count]
    exact composite_mono hstep fun y hy => hgap y hy z hz
  have hbelow : ∀ least, (∀ z ∈ Set.Icc x (x + count * step), least ≤ f z) →
      least * (count * step) ≤ other.composite fine many f x := by
    intro least hleast
    rw [hwidth] at hleast ⊢
    rw [← composite_const other fine many]
    exact composite_mono hfine hleast
  obtain hzero | hpos := hnonneg.eq_or_lt
  · -- An interval without width has no integral by any rule.
    have hx : x ∈ Set.Icc x (x + count * step) :=
      Set.left_mem_Icc.2 (le_add_of_nonneg_right hnonneg)
    have hfirst := habove x hx
    have hsecond := hbelow (f x - gap) fun z hz => sub_le_iff_le_add.2 (hgap x hx z hz)
    rw [← hzero, mul_zero] at hfirst hsecond
    rw [← hzero, mul_zero, add_zero]
    exact hfirst.trans hsecond
  · -- The mean that one rule finds, less the variation, is nowhere above the function.
    have hleast := hbelow (order.composite step count f x / (count * step) - gap) fun z hz => by
      rw [sub_le_iff_le_add, div_le_iff₀ hpos]
      exact habove z hz
    rw [sub_mul, div_mul_cancel₀ _ hpos.ne'] at hleast
    exact sub_le_iff_le_add.1 hleast

theorem abs_composite_sub_le (order other : Order) (hstep : 0 ≤ step) (hfine : 0 ≤ fine)
    (hwidth : (count : ℚ) * step = many * fine) {gap : ℚ}
    (hgap : ∀ y ∈ Set.Icc x (x + count * step), ∀ z ∈ Set.Icc x (x + count * step),
      f y ≤ f z + gap) :
    |order.composite step count f x - other.composite fine many f x| ≤ gap * (count * step) := by
  rw [abs_sub_le_iff, sub_le_iff_le_add', sub_le_iff_le_add']
  refine ⟨composite_le_add hstep hfine hwidth hgap, ?_⟩
  rw [hwidth] at hgap ⊢
  exact composite_le_add hfine hstep hwidth.symm hgap

omit [Elementary ℚ] in
theorem le_add_of_lipschitz (hstep : 0 ≤ step) {bound : ℚ}
    (hbound : ∀ y ∈ Set.Icc x (x + step), ∀ z ∈ Set.Icc x (x + step),
      |f y - f z| ≤ bound * |y - z|) :
    ∀ y ∈ Set.Icc x (x + step), ∀ z ∈ Set.Icc x (x + step), f y ≤ f z + bound * step := by
  intro y hy z hz
  have hdistance : |y - z| ≤ step :=
    abs_sub_le_iff.2 ⟨by linarith [hy.2, hz.1], by linarith [hz.2, hy.1]⟩
  have hends := hbound (x + step) (Set.right_mem_Icc.2 (le_add_of_nonneg_right hstep)) x
    (Set.left_mem_Icc.2 (le_add_of_nonneg_right hstep))
  rw [add_sub_cancel_left, abs_of_nonneg hstep] at hends
  have hle : bound * |y - z| ≤ bound * step := by
    obtain hneg | hnonneg := lt_or_ge bound 0
    · -- A bound below zero leaves no room between the ends.
      have hzero : step = 0 := le_antisymm (by
        have := (abs_nonneg _).trans hends
        nlinarith) hstep
      have hsame : |y - z| = 0 := le_antisymm (hzero ▸ hdistance) (abs_nonneg _)
      rw [hsame, hzero]
    · exact mul_le_mul_of_nonneg_left hdistance hnonneg
  linarith [le_abs_self (f y - f z), hbound y hy z hz]

/-- A composite rule and another one on sub-intervals so many times as fine. -/
theorem abs_composite_refined_le (order other : Order) (hstep : 0 ≤ step) {factor : Nat}
    (hfactor : 0 < factor) {bound : ℚ} (hbound : ∀ y ∈ Set.Icc x (x + count * step),
      ∀ z ∈ Set.Icc x (x + count * step), |f y - f z| ≤ bound * |y - z|) :
    |order.composite step count f x - other.composite (step / factor) (factor * count) f x| ≤
      bound * step * (count * step) := by
  have hwidth : (factor : ℚ) * (step / factor) = step :=
    mul_div_cancel₀ _ (Nat.cast_ne_zero.2 hfactor.ne')
  have hfine : 0 ≤ step / factor := div_nonneg hstep factor.cast_nonneg
  have hone : ∀ x, order.composite step 1 f x = order.estimate step f x := fun x => by
    simp [composite]
  have hpiece : ∀ i < count, |order.estimate step f (x + i * step) -
      other.composite (step / factor) factor f (x + i * step)| ≤ bound * step * step := by
    intro i hi
    have hsubset := interval_subset hstep hi x
    have hgap := le_add_of_lipschitz hstep fun y hy z hz => hbound y (hsubset hy) z (hsubset hz)
    rw [← one_mul step, ← Nat.cast_one] at hgap
    have hclose := abs_composite_sub_le order other hstep hfine
      (by rw [hwidth, Nat.cast_one, one_mul]) hgap
    rwa [hone, Nat.cast_one, one_mul] at hclose
  rw [composite, composite_mul, hwidth, ← Finset.sum_sub_distrib]
  calc |∑ i ∈ Finset.range count, (order.estimate step f (x + i * step) -
          other.composite (step / factor) factor f (x + i * step))|
      ≤ ∑ i ∈ Finset.range count, |order.estimate step f (x + i * step) -
          other.composite (step / factor) factor f (x + i * step)| := Finset.abs_sum_le_sum_abs _ _
    _ ≤ ∑ _i ∈ Finset.range count, bound * step * step :=
        Finset.sum_le_sum fun i hi => hpiece i (Finset.mem_range.1 hi)
    _ = bound * step * (count * step) := by
        rw [Finset.sum_const, Finset.card_range, nsmul_eq_mul]
        ring

end Order

namespace Tree

/-- Of a function with a Lipschitz bound over the interval of the integration, the integrals by any
two rules, the second of them on sub-intervals so many times as fine, differ by no more than the
bound times the coarse step times the width of the interval. -/
theorem integrate_refined (t : Tree ℚ) {f : ℚ → ℚ} {lower upper bound : ℚ}
    (hf : t.Computes f (span lower upper))
    (hbound : ∀ x ∈ span lower upper, ∀ y ∈ span lower upper, |f x - f y| ≤ bound * |x - y|)
    {coarse fine : Configuration} {factor : Nat}
    (hgrain : fine.grain.val = factor * coarse.grain.val) :
    ∃ first second, (t.integrate lower upper coarse .unlimited).result = .ok first ∧
      (t.integrate lower upper fine .unlimited).result = .ok second ∧
      |first - second| ≤ bound * (|upper - lower| / coarse.grain.val) * |upper - lower| := by
  have hfactor : 0 < factor := by
    refine Nat.pos_of_ne_zero ?_
    rintro rfl
    have := fine.grain.property
    omega
  have hvalues : ∀ c : Configuration, t.Computes f {x | x ∈ samplePoints lower upper c} :=
    fun c => hf.mono fun _ => mem_span_of_mem_samplePoints
  have hwidth := grain_mul_step lower upper coarse
  rw [span, ← hwidth] at hbound
  have hclose := Order.abs_composite_refined_le coarse.order fine.order
    (step_nonneg lower upper coarse) hfactor hbound
  rw [hwidth, div_div, ← Nat.cast_mul, mul_comm coarse.grain.val, ← hgrain] at hclose
  exact ⟨_, _, (hvalues coarse).result_integrate, (hvalues fine).result_integrate, hclose⟩

omit [Elementary ℚ] in
/-- A function with a bend from minus one to one, by the trapezoidal rule on three sub-intervals and
by the rule of order four on six. -/
theorem integrate_bend_refined :
    letI := Elementary.ofSine fun x => |x - 1 / 3|
    let coarse : Configuration := ⟨1, ⟨3, by decide⟩, ⟨2, by decide⟩, ⟨1, by decide⟩⟩
    let fine : Configuration := ⟨4, ⟨6, by decide⟩, ⟨4, by decide⟩, ⟨3, by decide⟩⟩
    ∃ first second, (sine.integrate (-1) 1 coarse .unlimited).result = .ok first ∧
      (sine.integrate (-1) 1 fine .unlimited).result = .ok second ∧ |first - second| ≤ 4 / 3 := by
  let _ := Elementary.ofSine fun x => |x - 1 / 3|
  intro coarse fine
  obtain ⟨first, second, hfirst, hsecond, hclose⟩ :=
    integrate_refined sine (computes_sine _ (span (-1) 1)) (fun x _ y _ => by
      have hbound := abs_abs_sub_abs_le_abs_sub (x - 1 / 3) (y - 1 / 3)
      rwa [sub_sub_sub_cancel_right, ← one_mul |x - y|] at hbound)
      (show fine.grain.val = 2 * coarse.grain.val from rfl)
  refine ⟨first, second, hfirst, hsecond, hclose.trans ?_⟩
  norm_num [coarse]

end Tree

end PrefixIntegral
