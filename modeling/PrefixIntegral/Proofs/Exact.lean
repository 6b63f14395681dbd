import Mathlib.Algebra.BigOperators.Field
import Mathlib.Algebra.Order.Field.Rat
import Mathlib.Tactic.NormNum
import Mathlib.Tactic.Ring
import PrefixIntegral.Proofs.Regrouping

namespace PrefixIntegral

/-- The functions that are not computed exactly. Nothing is assumed of them. -/
class Elementary (α : Type) where
  pow : α → α → α
  sqrt : α → α
  sin : α → α
  cos : α → α
  tan : α → α
  exp : α → α
  log : α → α

variable [Elementary ℚ]

namespace Scalar

/-- Rational numbers, whose sums, products and quotients do not round. -/
instance rational : Scalar ℚ where
  pow := Elementary.pow
  sqrt := Elementary.sqrt
  sin := Elementary.sin
  cos := Elementary.cos
  tan := Elementary.tan
  exp := Elementary.exp
  log := Elementary.log
  ofInt n := n
  reaches _ := true
  isZeroDivisor x := x == 0
  isNegative x := decide (x < 0)
  isNaN _ := false
  exceeds x y := decide (y < x)
  same x y := x == y

@[simp] theorem ofInt_rational (n : Int) : (Scalar.ofInt n : ℚ) = n := rfl

@[simp] theorem ofNat_rational (n : Nat) : (Scalar.ofNat n : ℚ) = n := Int.cast_natCast n

theorem power_two (a : ℚ) : Scalar.power a (Scalar.ofInt 2) = a * a := by
  have hsame : ∀ b c : ℚ, Scalar.same b c = decide (b = c) := fun _ _ => rfl
  have hhalf : (2 : ℚ) ≠ 1 / 2 := by norm_num
  simp only [Scalar.power, hsame, ofInt_rational, decide_eq_true_eq, Int.cast_neg, Int.cast_one,
    Int.cast_ofNat, Int.cast_zero]
  rw [if_neg (by decide), if_neg (by decide), if_neg hhalf, if_neg (by decide), if_pos trivial]

theorem addsExactly_rational : Scalar.AddsExactly ℚ :=
  ⟨fun a b c => add_assoc a b c, fun a => by simp⟩

theorem times_rational (count : Nat) (a : ℚ) : times count a = count * a := by
  induction count with
  | zero => simp [times]
  | succ count ih => rw [times, ih, Nat.cast_succ, add_one_mul]

theorem sum_rational (count : Nat) (g : Nat → ℚ) :
    sum ((List.range count).map g) = ∑ i ∈ Finset.range count, g i := by
  induction count with
  | zero => simp [sum]
  | succ count ih =>
      rw [List.range_succ, List.map_append, List.map_singleton, sum_concat, ih,
        Finset.sum_range_succ]

end Scalar

theorem Step.width_between (lower upper : ℚ) (grain : Int) :
    (Step.between lower upper grain).width = |upper - lower| / grain := by
  unfold Step.between
  split
  · rename_i hexceeds
    have hlt : upper < lower := of_decide_eq_true hexceeds
    rw [abs_of_neg (sub_neg.2 hlt), neg_sub]
    rfl
  · rename_i hexceeds
    have hle : lower ≤ upper := not_lt.1 fun hlt => hexceeds (decide_eq_true hlt)
    rw [abs_of_nonneg (sub_nonneg.2 hle)]
    rfl

namespace Order

def weigh (order : Order) (delta : ℚ) (f : ℚ → ℚ) (x : ℚ) : ℚ :=
  ∑ j ∈ Finset.range (order.val + 1), (order.weights.getD j 0 : ℚ) * f (x + j * delta)

def estimate (order : Order) (step : ℚ) (f : ℚ → ℚ) (x : ℚ) : ℚ :=
  order.weigh (order.scale step).delta f x * (order.scale step).normalizer

def composite (order : Order) (step : ℚ) (count : Nat) (f : ℚ → ℚ) (x : ℚ) : ℚ :=
  ∑ i ∈ Finset.range count, order.estimate step f (x + i * step)

theorem compositeSum_rational (order : Order) (step : ℚ) (count : Nat) (f : ℚ → ℚ) (x : ℚ) :
    order.compositeSum step count f x = order.composite step count f x := by
  simp only [compositeSum, weightedSum, weighted, Scalar.sum_rational, Scalar.times_rational,
    Scalar.ofNat_rational, composite, estimate, weigh, Finset.sum_mul]

end Order

namespace Tree

variable {t : Tree ℚ} {f : ℚ → ℚ}

/-- An integration of a tree that has values at all sample points is a composite rule, whatever the
batches and the workers. -/
theorem result_integrate_exact (hpowers : t.PowersAgree) {lower upper : ℚ} {c : Configuration}
    (hvalues : ∀ i < c.grain.val, ∀ j ≤ c.order.val,
      let step := |upper - lower| / c.grain.val
      let x := lower + i * step + j * (c.order.scale step).delta
      t.evaluate x = .ok (f x)) :
    (t.integrate lower upper c .unlimited).result =
      .ok (c.order.composite (|upper - lower| / c.grain.val) c.grain.val f lower) := by
  have hpoints : ∀ i < c.grain.val, ∀ j ≤ c.order.val,
      let step := (Step.between lower upper c.grain.val).width
      let point := lower + Scalar.times i step + Scalar.ofNat j * (c.order.scale step).delta
      t.evaluate point = .ok (f point) := by
    intro i hi j hj
    simpa [Step.width_between, Scalar.times_rational] using hvalues i hi j hj
  rw [result_integrate_of_addsExactly Scalar.addsExactly_rational hpowers rfl,
    loopIntegral_eq_compositeSum Scalar.addsExactly_rational hpoints, Step.width_between,
    Int.cast_natCast, Order.compositeSum_rational]
  rfl

end Tree

end PrefixIntegral
