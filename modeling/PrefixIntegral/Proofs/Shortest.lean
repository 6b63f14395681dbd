import Mathlib.Algebra.Order.Field.Power
import Mathlib.Tactic.Positivity
import PrefixIntegral.Decimal.Shortest
import PrefixIntegral.Proofs.Rounding

namespace PrefixIntegral.Binary64

open Decimal (Scale Ratio)

def scaling (t power : Int) : ℚ := 10 ^ (-power).toNat * 2 ^ (2 - t).toNat

variable {m : Nat} {t power : Int}

theorem scaling_pos : 0 < scaling t power := by
  unfold scaling
  positivity

theorem cast_cell : ((Scale.of m t power).cell : ℚ) = 10 ^ power * scaling t power := by
  have hten := zpow_mul_pow_toNat (by norm_num : (10 : ℚ) ≠ 0) power
  rw [scaling, ← mul_assoc, hten, Scale.of]
  push_cast
  rfl

theorem cast_unit (count : Nat) :
    ((count * (2 ^ (t - 2).toNat * 10 ^ (-power).toNat) : Nat) : ℚ) =
      count / 4 * 2 ^ t * scaling t power := by
  have htwo := zpow_mul_pow_toNat (two_ne_zero (α := ℚ)) (t - 2)
  have hquarter : (2 : ℚ) ^ (t - 2) = 2 ^ t / 4 := by
    rw [zpow_sub₀ two_ne_zero]
    norm_num
  rw [Int.neg_sub, hquarter] at htwo
  push_cast
  rw [← htwo, scaling]
  ring

theorem cast_value : ((Scale.of m t power).value : ℚ) = m * 2 ^ t * scaling t power := by
  rw [Scale.of, cast_unit]
  push_cast
  ring

theorem cast_upper : ((Scale.of m t power).upper : ℚ) = (m + 1 / 2) * 2 ^ t * scaling t power := by
  rw [Scale.of, cast_unit]
  push_cast
  ring

theorem cast_lower (hm : 0 < m) :
    ((Scale.of m t power).lower : ℚ) = (m - lowerGap m t) * 2 ^ t * scaling t power := by
  rw [Scale.of, cast_unit, lowerGap]
  split
  · rw [Nat.cast_sub (by omega)]
    push_cast
    ring
  · rw [Nat.cast_sub (by omega)]
    push_cast
    ring

/-- A grid point is accepted if it lies in the interval, and not otherwise. -/
theorem admits_iff (hm : 0 < m) {point : Nat} :
    (Scale.of m t power).admits point = true ↔ RoundsTo (point * 10 ^ power) m t := by
  have hpos := @scaling_pos t power
  have hplace : ((point * (Scale.of m t power).cell : Nat) : ℚ) =
      point * 10 ^ power * scaling t power := by
    rw [Nat.cast_mul, cast_cell, mul_assoc]
  have hlower_le : (Scale.of m t power).lower ≤ point * (Scale.of m t power).cell ↔
      (m - lowerGap m t) * 2 ^ t ≤ (point : ℚ) * 10 ^ power := by
    rw [← Nat.cast_le (α := ℚ), cast_lower hm, hplace, mul_le_mul_iff_left₀ hpos]
  have hlower_lt : (Scale.of m t power).lower < point * (Scale.of m t power).cell ↔
      (m - lowerGap m t) * 2 ^ t < (point : ℚ) * 10 ^ power := by
    rw [← Nat.cast_lt (α := ℚ), cast_lower hm, hplace, mul_lt_mul_iff_left₀ hpos]
  have hupper_le : point * (Scale.of m t power).cell ≤ (Scale.of m t power).upper ↔
      (point : ℚ) * 10 ^ power ≤ (m + 1 / 2) * 2 ^ t := by
    rw [← Nat.cast_le (α := ℚ), cast_upper, hplace, mul_le_mul_iff_left₀ hpos]
  have hupper_lt : point * (Scale.of m t power).cell < (Scale.of m t power).upper ↔
      (point : ℚ) * 10 ^ power < (m + 1 / 2) * 2 ^ t := by
    rw [← Nat.cast_lt (α := ℚ), cast_upper, hplace, mul_lt_mul_iff_left₀ hpos]
  have hclosed : (Scale.of m t power).closed = decide (m % 2 = 0) := rfl
  unfold Scale.admits RoundsTo
  dsimp only
  by_cases heven : m % 2 = 0
  · rw [hclosed, if_pos (decide_eq_true heven), Bool.and_eq_true, decide_eq_true_eq,
      decide_eq_true_eq, hlower_le, hupper_le]
    constructor
    · intro h
      exact ⟨h.1, h.2, fun hodd => by omega⟩
    · intro h
      exact ⟨h.1, h.2.1⟩
  · have hodd : m % 2 = 1 := by omega
    rw [hclosed, if_neg (by simpa using hodd), Bool.and_eq_true, decide_eq_true_eq,
      decide_eq_true_eq, hlower_lt, hupper_lt]
    constructor
    · intro h
      exact ⟨h.1.le, h.2.le, fun _ => h⟩
    · intro h
      exact h.2.2 hodd

theorem admits_of_pick? {s : Scale} {point : Nat} (h : s.pick? = some point) :
    s.admits point = true := by
  unfold Scale.pick? at h
  dsimp only at h
  split at h
  · cases h
  · rename_i hbelow _
    cases h
    exact hbelow
  · rename_i _ habove
    cases h
    exact habove
  · rename_i hbelow habove
    split at h
    · cases h
      exact hbelow
    · split at h
      · cases h
        exact habove
      · split at h
        · cases h
          exact hbelow
        · cases h
          exact habove

theorem pick?_isSome {s : Scale} (h : s.admits (s.value / s.cell + 1) = true) :
    s.pick?.isSome := by
  unfold Scale.pick?
  dsimp only
  rw [h]
  cases s.admits (s.value / s.cell)
  · rfl
  · dsimp only
    split
    · rfl
    · split <;> rfl

theorem pick?_isSome_of_lt (hm : 0 < m) (hfine : (10 : ℚ) ^ power < 2 ^ (t - 1)) :
    (Scale.of m t power).pick?.isSome := by
  have hpos := @scaling_pos t power
  have hunit : (0 : ℚ) < 2 ^ t := zpow_pos two_pos t
  have hcell : 0 < (Scale.of m t power).cell := by
    unfold Scale.of
    positivity
  have hhalf : (2 : ℚ) ^ (t - 1) = 1 / 2 * 2 ^ t := by
    rw [zpow_sub₀ two_ne_zero]
    ring
  have hgap := lowerGap_pos m t
  have hceil := Nat.lt_mul_div_succ (Scale.of m t power).value hcell
  have hfloor := Nat.div_mul_le_self (Scale.of m t power).value (Scale.of m t power).cell
  refine pick?_isSome ((admits_iff hm).2 ?_)
  generalize (Scale.of m t power).value / (Scale.of m t power).cell = below at hceil hfloor
  have hbelow : (m : ℚ) * 2 ^ t < (below + 1 : Nat) * 10 ^ power := by
    rw [← mul_lt_mul_iff_left₀ hpos, ← cast_value, mul_assoc, ← cast_cell, mul_comm]
    exact_mod_cast hceil
  have habove : (below : ℚ) * 10 ^ power ≤ m * 2 ^ t := by
    rw [← mul_le_mul_iff_left₀ hpos, ← cast_value, mul_assoc, ← cast_cell]
    exact_mod_cast hfloor
  have hlower : ((m : ℚ) - lowerGap m t) * 2 ^ t < (below + 1 : Nat) * 10 ^ power :=
    lt_of_le_of_lt (mul_le_mul_of_nonneg_right (by linarith) hunit.le) hbelow
  have hupper : ((below + 1 : Nat) : ℚ) * 10 ^ power < (m + 1 / 2) * 2 ^ t := by
    push_cast
    rw [add_mul, add_mul]
    linarith
  exact ⟨hlower.le, hupper.le, fun _ => ⟨hlower, hupper⟩⟩

theorem shortestFrom_spec {steps : Nat} {first : Int}
    (h : ∃ k < steps, (Scale.of m t (first - k)).pick?.isSome) :
    ∃ point last, Decimal.shortestFrom m t steps first = (point, last) ∧
      (Scale.of m t last).admits point = true ∧ first - steps < last ∧ last ≤ first := by
  -- The steps that are left still cover a grid with an accepted point.
  induction steps generalizing first with
  | zero =>
      obtain ⟨k, hk, -⟩ := h
      omega
  | succ steps ih =>
      rw [Decimal.shortestFrom]
      cases hpick : (Scale.of m t first).pick? with
      | some point => exact ⟨point, first, rfl, admits_of_pick? hpick, by omega, le_rfl⟩
      | none =>
          have hlater : ∃ k < steps, (Scale.of m t (first - 1 - k)).pick?.isSome := by
            obtain ⟨k, hk, hsome⟩ := h
            obtain _ | k := k
            · rw [Int.natCast_zero, Int.sub_zero, hpick] at hsome
              cases hsome
            · refine ⟨k, by omega, ?_⟩
              rwa [Int.sub_sub, Int.add_comm]
          obtain ⟨point, last, hfrom, hadmits, hlow, hhigh⟩ := ih hlater
          exact ⟨point, last, hfrom, hadmits, by omega, by omega⟩

theorem log2_mul_two_pow (hm : 0 < m) (k : Nat) : (m * 2 ^ k).log2 = m.log2 + k := by
  rw [Nat.log2_eq_iff (by positivity)]
  have hbelow := Nat.log2_self_le hm.ne'
  have habove := @Nat.lt_log2_self m
  refine ⟨?_, ?_⟩
  · rw [pow_add]
    exact Nat.mul_le_mul_right _ hbelow
  · rw [Nat.add_right_comm, pow_add]
    exact Nat.mul_lt_mul_of_pos_right habove (by positivity)

theorem ten_zpow_le {g k : Int} (hpos : 0 ≤ g → 10 * g ≤ 3 * k) (hneg : g < 0 → 33 * g ≤ 10 * k) :
    (10 : ℚ) ^ g ≤ 2 ^ k := by
  rcases Int.lt_or_le g 0 with hlt | hge
  · have htenth : ((10 : ℚ) ^ g) ^ 10 ≤ (2 ^ k) ^ 10 := by
      calc
        ((10 : ℚ) ^ g) ^ 10 = ((10 ^ 10) ^ (-g))⁻¹ := by
          rw [← zpow_neg, neg_neg, ← zpow_natCast, ← zpow_natCast, ← zpow_mul, ← zpow_mul, mul_comm]
        _ ≤ ((2 ^ 33) ^ (-g))⁻¹ :=
          inv_anti₀ (by positivity) (zpow_le_zpow_left₀ (by omega) (by norm_num) (by norm_num))
        _ = 2 ^ (33 * g) := by
          rw [← zpow_neg, neg_neg, ← zpow_natCast, ← zpow_mul]
          rfl
        _ ≤ 2 ^ (10 * k) := zpow_le_zpow_right₀ one_le_two (hneg hlt)
        _ = (2 ^ k) ^ 10 := by
          rw [mul_comm, zpow_mul]
          rfl
    exact (pow_le_pow_iff_left₀ (by positivity) (by positivity) (by norm_num)).1 htenth
  · have hthird : ((10 : ℚ) ^ g) ^ 3 ≤ (2 ^ k) ^ 3 := by
      calc
        ((10 : ℚ) ^ g) ^ 3 = (10 ^ 3) ^ g := by
          rw [← zpow_natCast, ← zpow_natCast, ← zpow_mul, ← zpow_mul, mul_comm]
        _ ≤ (2 ^ 10) ^ g := zpow_le_zpow_left₀ hge (by norm_num) (by norm_num)
        _ = 2 ^ (10 * g) := by
          rw [← zpow_natCast, ← zpow_mul]
          rfl
        _ ≤ 2 ^ (3 * k) := zpow_le_zpow_right₀ one_le_two (hpos hge)
        _ = (2 ^ k) ^ 3 := by
          rw [mul_comm, zpow_mul]
          rfl
    exact (pow_le_pow_iff_left₀ (by positivity) (by positivity) (by norm_num)).1 hthird

theorem ten_zpow_le_of_reaches {p : Int} (h : (Decimal.ratio m t).reaches p = true) :
    (10 : ℚ) ^ p ≤ m * 2 ^ t := by
  have hten := zpow_mul_pow_toNat (by norm_num : (10 : ℚ) ≠ 0) p
  have htwo := zpow_mul_pow_toNat (two_ne_zero (α := ℚ)) t
  have hnat : 2 ^ (-t).toNat * 10 ^ p.toNat ≤ m * 2 ^ t.toNat * 10 ^ (-p).toNat :=
    of_decide_eq_true h
  have hcast : (2 : ℚ) ^ (-t).toNat * 10 ^ p.toNat ≤ m * 2 ^ t.toNat * 10 ^ (-p).toNat := by
    exact_mod_cast hnat
  rw [← hten, ← htwo] at hcast
  have hpos : (0 : ℚ) < 2 ^ (-t).toNat * 10 ^ (-p).toNat := by positivity
  refine le_of_mul_le_mul_right ?_ hpos
  linarith

theorem magnitude_spec (hm : IsCanonical m t) :
    (10 : ℚ) ^ (Decimal.ratio m t).magnitude ≤ 2 ^ (t + 60) ∧
      -326 ≤ (Decimal.ratio m t).magnitude ∧ (Decimal.ratio m t).magnitude ≤ 310 := by
  have hleast := hm.least
  have hmost := hm.most
  have hlog : m.log2 < 53 := (Nat.log2_lt hm.pos.ne').2 hm.lt
  have hlt : (m : ℚ) * 2 ^ t ≤ 2 ^ (t + 60) := by
    have : (m : ℚ) ≤ 2 ^ 60 := by
      have := hm.lt
      exact_mod_cast (by omega : m ≤ 2 ^ 60)
    rw [zpow_add₀ two_ne_zero, mul_comm]
    exact mul_le_mul_of_nonneg_left this (by positivity)
  have hnum : Nat.log2 (Decimal.ratio m t).num = m.log2 + t.toNat := log2_mul_two_pow hm.pos _
  have hden : Nat.log2 (Decimal.ratio m t).den = (-t).toNat := Nat.log2_two_pow
  unfold Ratio.magnitude
  extract_lets guess
  have hguess : guess = (m.log2 + t) * 30103 / 100000 := by
    simp only [guess, hnum, hden]
    congr 2
    omega
  split
  · rename_i hreaches
    exact ⟨(ten_zpow_le_of_reaches hreaches).trans hlt, by omega, by omega⟩
  · split
    · rename_i hreaches
      exact ⟨(ten_zpow_le_of_reaches hreaches).trans hlt, by omega, by omega⟩
    · exact ⟨ten_zpow_le (by omega) (by omega), by omega, by omega⟩

theorem RoundsTo.pos {x : ℚ} (hm : 0 < m) (h : RoundsTo x m t) : 0 < x := by
  have hone : (1 : ℚ) ≤ m := by exact_mod_cast hm
  have hgap := lowerGap_le m t
  have hlower : 0 < (m - lowerGap m t) * 2 ^ t := mul_pos (by linarith) (zpow_pos two_pos t)
  exact hlower.trans_le h.1

/-- The shortest digits of a number lie in its interval. -/
theorem shortest_spec (hm : IsCanonical m t) :
    ∃ point power, Decimal.shortest m t = (point, power) ∧ 0 < point ∧
      RoundsTo (point * 10 ^ power) m t ∧ -350 ≤ power ∧ power ≤ 350 := by
  obtain ⟨hmagnitude, hleast, hmost⟩ := magnitude_spec hm
  generalize hguess : (Decimal.ratio m t).magnitude = guess at hmagnitude hleast hmost
  have hfine : (10 : ℚ) ^ (guess + 1 - (23 : Nat)) < 2 ^ (t - 1) := by
    calc
      (10 : ℚ) ^ (guess + 1 - (23 : Nat)) = 10 ^ guess / 10 ^ 22 := by
        rw [← zpow_natCast, ← zpow_sub₀ (by norm_num)]
        congr 1
        push_cast
        ring
      _ ≤ 2 ^ (t + 60) / 10 ^ 22 := div_le_div_of_nonneg_right hmagnitude (by positivity)
      _ = 2 ^ (t - 1) * (2 ^ 61 / 10 ^ 22) := by
        have hsum : t + 60 = t - 1 + (61 : Nat) := by
          push_cast
          ring
        rw [hsum, zpow_add₀ two_ne_zero, mul_div_assoc, zpow_natCast]
      _ < 2 ^ (t - 1) := mul_lt_of_lt_one_right (by positivity) (by norm_num)
  obtain ⟨point, power, hfrom, hadmits, hlow, hhigh⟩ :=
    @shortestFrom_spec m t 24 (guess + 1) ⟨23, by decide, pick?_isSome_of_lt hm.pos hfine⟩
  have hrounds := (admits_iff hm.pos).1 hadmits
  have hpoint : 0 < point := by
    have hpower : (0 : ℚ) < 10 ^ power := zpow_pos (by norm_num) power
    exact_mod_cast pos_of_mul_pos_left (hrounds.pos hm.pos) hpower.le
  refine ⟨point, power, ?_, hpoint, hrounds, by omega, by omega⟩
  rw [Decimal.shortest, hguess, hfrom]

end PrefixIntegral.Binary64
