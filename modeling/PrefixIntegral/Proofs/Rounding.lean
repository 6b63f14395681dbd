import Mathlib.Tactic.Linarith
import Mathlib.Tactic.NormNum.Ineq
import Mathlib.Tactic.Ring

/-!
Rounding to binary64 in exact arithmetic. Each finite number has an interval of rationals around it
that it stands for; what is cut down to the length of a significand with the accuracy of the cut
kept beside it is rounded to the number in whose interval it lies.
-/

namespace PrefixIntegral.Binary64

open Float.Model (Format UnpackedFloat totalExponent)
open Float.Model.UnpackedFloat

theorem zpow_mul_pow_toNat {b : ℚ} (hb : b ≠ 0) (t : Int) :
    b ^ t * b ^ (-t).toNat = b ^ t.toNat := by
  rw [← zpow_natCast, ← zpow_natCast, ← zpow_add₀ hb]
  congr 1
  omega

def Tells (y : ℚ) (whole : Nat) : Accuracy → Prop
  | .exact => y = whole
  | .inexact .lt => whole < y ∧ y < whole + 1 / 2
  | .inexact .eq => y = whole + 1 / 2
  | .inexact .gt => whole + 1 / 2 < y ∧ y < whole + 1

def Nearest (y : ℚ) (n : Nat) : Prop :=
  n - 1 / 2 ≤ y ∧ y ≤ n + 1 / 2 ∧ (n % 2 = 1 → n - 1 / 2 < y ∧ y < n + 1 / 2)

theorem Tells.bounds {y : ℚ} {whole : Nat} {accuracy : Accuracy} (h : Tells y whole accuracy) :
    whole ≤ y ∧ y < whole + 1 := by
  rcases accuracy with _ | _ | _ | _ <;> simp only [Tells] at h <;> constructor <;> linarith

theorem Tells.round {y : ℚ} {whole n : Nat} {accuracy : Accuracy} (h : Tells y whole accuracy)
    (hn : Nearest y n) : accuracy.roundToNearestEven whole = n := by
  obtain ⟨hlower, hupper, hodd⟩ := hn
  rcases accuracy with _ | _ | _ | _ <;> simp only [Tells] at h <;>
    simp only [Accuracy.roundToNearestEven]
  · have hle : n < whole + 1 := by exact_mod_cast (by linarith : (n : ℚ) < whole + 1)
    have hge : whole < n + 1 := by exact_mod_cast (by linarith : (whole : ℚ) < n + 1)
    omega
  · have hle : n < whole + 1 := by exact_mod_cast (by linarith : (n : ℚ) < whole + 1)
    have hge : whole < n + 1 := by exact_mod_cast (by linarith : (whole : ℚ) < n + 1)
    omega
  · have hle : n < whole + 2 := by exact_mod_cast (by linarith : (n : ℚ) < whole + 2)
    have hge : whole < n + 1 := by exact_mod_cast (by linarith : (whole : ℚ) < n + 1)
    have heven : n % 2 ≠ 1 := by
      intro hone
      obtain ⟨hfirst, hsecond⟩ := hodd hone
      have hle : n < whole + 1 := by exact_mod_cast (by linarith : (n : ℚ) < whole + 1)
      have hge : whole < n := by exact_mod_cast (by linarith : (whole : ℚ) < n)
      omega
    omega
  · have hle : n < whole + 2 := by exact_mod_cast (by linarith : (n : ℚ) < whole + 2)
    have hge : whole < n := by exact_mod_cast (by linarith : (whole : ℚ) < n)
    omega

theorem mantissa_ofMantissaAndAccuracy (whole : Nat) (accuracy : Accuracy) :
    (ExtendedMantissa.ofMantissaAndAccuracy whole accuracy).mantissa = whole := by
  rcases accuracy with _ | _ | _ | _ <;> rfl

theorem accuracy_ofMantissaAndAccuracy (whole : Nat) (accuracy : Accuracy) :
    (ExtendedMantissa.ofMantissaAndAccuracy whole accuracy).accuracy = accuracy := by
  rcases accuracy with _ | _ | _ | _ <;> rfl

theorem tells_shiftRightOne {y : ℚ} {em : ExtendedMantissa} (h : Tells y em.mantissa em.accuracy) :
    Tells (y / 2) em.shiftRightOne.mantissa em.shiftRightOne.accuracy := by
  obtain ⟨whole, half, rest⟩ := em
  have hsplit : (whole : ℚ) = 2 * (whole / 2 : Nat) + (whole % 2 : Nat) := by
    exact_mod_cast (Nat.div_add_mod whole 2).symm
  obtain hbit | hbit := Nat.mod_two_eq_zero_or_one whole <;>
    rw [hbit] at hsplit <;>
    cases half <;> cases rest <;>
    simp only [ExtendedMantissa.accuracy, Tells, Nat.cast_zero, Nat.cast_one] at h hsplit <;>
    simp only [ExtendedMantissa.shiftRightOne, hbit, ExtendedMantissa.accuracy, Tells, bne,
      Nat.reduceBEq, Bool.not_true, Bool.not_false, Bool.or_self, Bool.or_true, Bool.or_false]
  all_goals first
    | linarith
    | exact ⟨by linarith, by linarith⟩

theorem tells_shiftRight {y : ℚ} {em : ExtendedMantissa} (h : Tells y em.mantissa em.accuracy)
    (count : Nat) : Tells (y / 2 ^ count) (em >>> count).mantissa (em >>> count).accuracy := by
  show Tells _ (Nat.repeat ExtendedMantissa.shiftRightOne count em).mantissa
    (Nat.repeat ExtendedMantissa.shiftRightOne count em).accuracy
  induction count with
  | zero => simpa [Nat.repeat] using h
  | succ count ih =>
      rw [Nat.repeat, pow_succ, ← div_div]
      exact tells_shiftRightOne ih

/-- The significands and exponents of finite numbers: as long as may be, unless the exponent is the
least. -/
structure IsCanonical (m : Nat) (t : Int) : Prop where
  pos : 0 < m
  lt : m < 2 ^ 53
  least : -1074 ≤ t
  most : t ≤ 971
  full : t = -1074 ∨ 2 ^ 52 ≤ m

/-- How far the interval of a number reaches down, as a part of its unit: the numbers below the
least of a binade are closer. -/
def lowerGap (m : Nat) (t : Int) : ℚ := if m = 2 ^ 52 ∧ -1074 < t then 1 / 4 else 1 / 2

/-- A rational lies in the interval of a number, whose ends belong to it if the significand is even.
-/
def RoundsTo (x : ℚ) (m : Nat) (t : Int) : Prop :=
  (m - lowerGap m t) * 2 ^ t ≤ x ∧ x ≤ (m + 1 / 2) * 2 ^ t ∧
    (m % 2 = 1 → (m - lowerGap m t) * 2 ^ t < x ∧ x < (m + 1 / 2) * 2 ^ t)

theorem lowerGap_le (m : Nat) (t : Int) : lowerGap m t ≤ 1 / 2 := by
  unfold lowerGap
  split <;> norm_num

theorem lowerGap_pos (m : Nat) (t : Int) : 0 < lowerGap m t := by
  unfold lowerGap
  split <;> norm_num

theorem targetExponent_eq (total : Int) :
    Format.binary64.targetExponent total = max (total - 53) (-1074) := rfl

theorem shiftToTargetExponent_eq {m : Nat} {e first : Int} {accuracy : Accuracy}
    (h : Format.binary64.targetExponent (totalExponent m e) = first) :
    shiftToTargetExponent .binary64 m e accuracy =
      (ExtendedMantissa.ofMantissaAndAccuracy m accuracy >>> (first - e).toNat,
        e + (first - e).toNat) := by
  rw [← h]
  rfl

theorem shiftToTargetExponent_of_target {m : Nat} {e : Int}
    (h : Format.binary64.targetExponent (totalExponent m e) = e) :
    shiftToTargetExponent .binary64 m e .exact = (⟨m, false, false⟩, e) := by
  rw [shiftToTargetExponent_eq h, Int.sub_self, Int.toNat_zero, Int.natCast_zero, Int.add_zero]
  rfl

theorem IsCanonical.target {m : Nat} {t : Int} (h : IsCanonical m t) :
    Format.binary64.targetExponent (totalExponent m t) = t := by
  have hlt : m.log2 < 53 := (Nat.log2_lt h.pos.ne').2 h.lt
  have hleast := h.least
  rw [targetExponent_eq, totalExponent]
  rcases h.full with hmin | hfull
  · omega
  · have hge : 52 ≤ m.log2 := (Nat.le_log2 h.pos.ne').2 hfull
    omega

theorem shiftToTargetExponent_carry {t : Int} (h : -1074 < t) :
    shiftToTargetExponent .binary64 (2 ^ 53) (t - 1) .exact = (⟨2 ^ 52, false, false⟩, t) := by
  have htarget : Format.binary64.targetExponent (totalExponent (2 ^ 53) (t - 1)) = t := by
    rw [targetExponent_eq, totalExponent, Nat.log2_two_pow]
    omega
  have hone : (t - (t - 1)).toNat = 1 := by omega
  rw [shiftToTargetExponent_eq htarget, hone, Nat.cast_one, Int.sub_add_cancel]
  rfl

/-- The first cut tells of the number in units of the exponent that it is cut to, and the number is
rounded to the nearest count of them. -/
theorem roundWithAccuracy_of_nearest {sign : Sign} {whole : Nat} {e : Int} {accuracy : Accuracy}
    {x : ℚ} {n : Nat} {first : Int} (htells : Tells (x / 2 ^ e) whole accuracy)
    (hfirst : Format.binary64.targetExponent (totalExponent whole e) = first) (hle : e ≤ first)
    (hnear : Nearest (x / 2 ^ first) n) :
    roundWithAccuracy .binary64 sign whole e accuracy =
      let last := shiftToTargetExponent .binary64 n first .exact
      if h : last.1.mantissa = 0 then .zero sign
      else .finite sign last.1.mantissa last.2 (Nat.pos_of_ne_zero h) := by
  have hsum : e + ((first - e).toNat : Int) = first := by omega
  have hwhole : Tells (x / 2 ^ e) (ExtendedMantissa.ofMantissaAndAccuracy whole accuracy).mantissa
      (ExtendedMantissa.ofMantissaAndAccuracy whole accuracy).accuracy := by
    rwa [mantissa_ofMantissaAndAccuracy, accuracy_ofMantissaAndAccuracy]
  have hcut := tells_shiftRight hwhole (first - e).toNat
  rw [div_div, ← zpow_natCast, ← zpow_add₀ two_ne_zero, hsum] at hcut
  have hround := hcut.round hnear
  have hshape : roundWithAccuracy .binary64 sign whole e accuracy =
      let cut := shiftToTargetExponent .binary64 whole e accuracy
      let last := shiftToTargetExponent .binary64 cut.1.roundedMantissa cut.2 .exact
      if h : last.1.mantissa = 0 then .zero sign
      else .finite sign last.1.mantissa last.2 (Nat.pos_of_ne_zero h) := rfl
  rw [hshape, shiftToTargetExponent_eq hfirst, hsum, ← hround]
  rfl

theorem lt_two_zpow_totalExponent {x : ℚ} {whole : Nat} {e : Int} {accuracy : Accuracy}
    (h : Tells (x / 2 ^ e) whole accuracy) : x < 2 ^ totalExponent whole e := by
  have hpos : (0 : ℚ) < 2 ^ e := zpow_pos two_pos e
  have hlog : (whole : ℚ) + 1 ≤ 2 ^ (whole.log2 + 1) := by
    exact_mod_cast Nat.lt_log2_self
  calc
    x = x / 2 ^ e * 2 ^ e := (div_mul_cancel₀ x hpos.ne').symm
    _ < (whole + 1) * 2 ^ e := mul_lt_mul_of_pos_right h.bounds.2 hpos
    _ ≤ 2 ^ (whole.log2 + 1) * 2 ^ e := mul_le_mul_of_nonneg_right hlog hpos.le
    _ = 2 ^ totalExponent whole e := by
      rw [totalExponent, zpow_add₀ two_ne_zero]
      norm_cast

theorem two_zpow_totalExponent_le {x : ℚ} {whole : Nat} {e : Int} {accuracy : Accuracy}
    (h : Tells (x / 2 ^ e) whole accuracy) (hwhole : whole ≠ 0) :
    2 ^ (totalExponent whole e - 1) ≤ x := by
  have hpos : (0 : ℚ) < 2 ^ e := zpow_pos two_pos e
  have hlog : (2 : ℚ) ^ whole.log2 ≤ whole := by
    exact_mod_cast Nat.log2_self_le hwhole
  calc
    (2 : ℚ) ^ (totalExponent whole e - 1) = 2 ^ whole.log2 * 2 ^ e := by
      rw [totalExponent, ← zpow_natCast, ← zpow_add₀ two_ne_zero]
      congr 1
      ring
    _ ≤ whole * 2 ^ e := mul_le_mul_of_nonneg_right hlog hpos.le
    _ ≤ x / 2 ^ e * 2 ^ e := mul_le_mul_of_nonneg_right h.bounds.1 hpos.le
    _ = x := div_mul_cancel₀ x hpos.ne'

theorem totalExponent_le {x : ℚ} {whole : Nat} {e k : Int} {accuracy : Accuracy}
    (h : Tells (x / 2 ^ e) whole accuracy) (hx : x < 2 ^ k) (he : e < k) :
    totalExponent whole e ≤ k := by
  by_cases hwhole : whole = 0
  · rw [hwhole, totalExponent, Nat.log2_zero]
    omega
  · have := (zpow_lt_zpow_iff_right₀ one_lt_two).1
      ((two_zpow_totalExponent_le h hwhole).trans_lt hx)
    omega

theorem lt_totalExponent {x : ℚ} {whole : Nat} {e k : Int} {accuracy : Accuracy}
    (h : Tells (x / 2 ^ e) whole accuracy) (hx : 2 ^ k ≤ x) : k < totalExponent whole e :=
  (zpow_lt_zpow_iff_right₀ one_lt_two).1 (hx.trans_lt (lt_two_zpow_totalExponent h))

theorem RoundsTo.lt {x : ℚ} {m : Nat} {t : Int} (hx : RoundsTo x m t) (hm : IsCanonical m t) :
    x < 2 ^ (t + 53) := by
  have hunit : (0 : ℚ) < 2 ^ t := zpow_pos two_pos t
  have hlast : (m : ℚ) + 1 ≤ 2 ^ 53 := by exact_mod_cast hm.lt
  calc
    x ≤ (m + 1 / 2) * 2 ^ t := hx.2.1
    _ < 2 ^ 53 * 2 ^ t := mul_lt_mul_of_pos_right (by linarith) hunit
    _ = 2 ^ (t + 53) := by
      rw [zpow_add₀ two_ne_zero, mul_comm]
      rfl

theorem RoundsTo.of_lt {x : ℚ} {m : Nat} {t : Int} (hx : RoundsTo x m t) (hm : IsCanonical m t)
    (ht : -1074 < t) (hlt : x < 2 ^ (t + 52)) :
    m = 2 ^ 52 ∧ (2 ^ 52 - 1 / 4) * 2 ^ t ≤ x := by
  have hunit : (0 : ℚ) < 2 ^ t := zpow_pos two_pos t
  have hfull : 2 ^ 52 ≤ m := hm.full.resolve_left ht.ne'
  have hscaled : ((m : ℚ) - lowerGap m t) * 2 ^ t < 2 ^ 52 * 2 ^ t := by
    calc
      ((m : ℚ) - lowerGap m t) * 2 ^ t ≤ x := hx.1
      _ < 2 ^ (t + 52) := hlt
      _ = 2 ^ 52 * 2 ^ t := by
        rw [zpow_add₀ two_ne_zero, mul_comm]
        rfl
  have hbelow : (m : ℚ) < 2 ^ 52 + 1 := by
    have := lt_of_mul_lt_mul_right hscaled hunit.le
    have := lowerGap_le m t
    linarith
  have hlast : m = 2 ^ 52 := by
    have : m < 2 ^ 52 + 1 := by exact_mod_cast hbelow
    omega
  refine ⟨hlast, ?_⟩
  have hlower := hx.1
  rw [lowerGap, if_pos ⟨hlast, ht⟩, hlast] at hlower
  exact_mod_cast hlower

/-- The first cut is to the exponent of the number that is rounded to, or to the one before where it
is the least of its binade and approached from below. -/
theorem target_of_roundsTo {x : ℚ} {whole : Nat} {e : Int} {accuracy : Accuracy} {m : Nat} {t : Int}
    (htells : Tells (x / 2 ^ e) whole accuracy) (hlong : e ≤ -1074 ∨ 2 ^ (e + 52) ≤ x)
    (hm : IsCanonical m t) (hx : RoundsTo x m t) :
    Format.binary64.targetExponent (totalExponent whole e) = t ∨
      -1074 < t ∧ x < 2 ^ (t + 52) ∧
        Format.binary64.targetExponent (totalExponent whole e) = t - 1 := by
  have hleast := hm.least
  have hshort : ∀ k, t + 52 ≤ k → x < 2 ^ k → totalExponent whole e ≤ k := by
    intro k hk hlt
    refine totalExponent_le htells hlt ?_
    rcases hlong with hlow | hhigh
    · omega
    · have := (zpow_lt_zpow_iff_right₀ one_lt_two).1 (hhigh.trans_lt hlt)
      omega
  rw [targetExponent_eq]
  by_cases hmin : t = -1074
  · have := hshort (t + 53) (by omega) (hx.lt hm)
    exact .inl (by omega)
  · by_cases hbinade : 2 ^ (t + 52) ≤ x
    · have := hshort (t + 53) (by omega) (hx.lt hm)
      have := lt_totalExponent htells hbinade
      exact .inl (by omega)
    · have hlt := not_le.1 hbinade
      obtain ⟨-, hlower⟩ := hx.of_lt hm (by omega) hlt
      have hhalf : (2 : ℚ) ^ (t + 51) ≤ x := by
        refine le_trans ?_ hlower
        rw [zpow_add₀ two_ne_zero, mul_comm]
        exact mul_le_mul_of_nonneg_right (by norm_num) (zpow_pos two_pos t).le
      have := hshort (t + 52) le_rfl hlt
      have := lt_totalExponent htells hhalf
      exact .inr ⟨by omega, hlt, by omega⟩

theorem RoundsTo.nearest {x : ℚ} {m : Nat} {t : Int} (hx : RoundsTo x m t) :
    Nearest (x / 2 ^ t) m := by
  have hunit : (0 : ℚ) < 2 ^ t := zpow_pos two_pos t
  have hgap := lowerGap_le m t
  obtain ⟨hlower, hupper, hodd⟩ := hx
  refine ⟨?_, ?_, fun hone => ⟨?_, ?_⟩⟩
  · rw [le_div_iff₀ hunit]
    exact (mul_le_mul_of_nonneg_right (by linarith) hunit.le).trans hlower
  · rwa [div_le_iff₀ hunit]
  · rw [lt_div_iff₀ hunit]
    exact (mul_le_mul_of_nonneg_right (by linarith) hunit.le).trans_lt (hodd hone).1
  · rw [div_lt_iff₀ hunit]
    exact (hodd hone).2

/-- What lies in the interval of a number is rounded to it. -/
theorem roundWithAccuracy_eq {sign : Sign} {whole : Nat} {e : Int} {accuracy : Accuracy} {x : ℚ}
    {m : Nat} {t : Int} (htells : Tells (x / 2 ^ e) whole accuracy)
    (hlong : e ≤ -1074 ∨ 2 ^ (e + 52) ≤ x) (hm : IsCanonical m t) (hx : RoundsTo x m t) :
    roundWithAccuracy .binary64 sign whole e accuracy = .finite sign m t hm.pos := by
  have hle : e ≤ Format.binary64.targetExponent (totalExponent whole e) := by
    rw [targetExponent_eq]
    rcases hlong with hlow | hhigh
    · omega
    · have := lt_totalExponent htells hhigh
      omega
  rcases target_of_roundsTo htells hlong hm hx with hfirst | ⟨ht, hlt, hfirst⟩
  · rw [roundWithAccuracy_of_nearest htells hfirst (hfirst ▸ hle) hx.nearest,
      shiftToTargetExponent_of_target hm.target]
    exact dif_neg hm.pos.ne'
  · obtain ⟨rfl, hlower⟩ := hx.of_lt hm ht hlt
    have hunit : (0 : ℚ) < 2 ^ (t - 1) := zpow_pos two_pos _
    have hdouble : (2 : ℚ) ^ t = 2 * 2 ^ (t - 1) := by
      rw [mul_comm, ← zpow_add_one₀ two_ne_zero, Int.sub_add_cancel]
    have hnear : Nearest (x / 2 ^ (t - 1)) (2 ^ 53) := by
      refine ⟨?_, ?_, fun hodd => absurd hodd (by decide)⟩
      · rw [le_div_iff₀ hunit]
        rw [hdouble] at hlower
        push_cast
        linarith
      · rw [div_le_iff₀ hunit]
        rw [zpow_add₀ two_ne_zero, hdouble] at hlt
        push_cast
        have hlt : x < 2 * 2 ^ (t - 1) * 2 ^ 52 := hlt
        linarith
    rw [roundWithAccuracy_of_nearest htells hfirst (hfirst ▸ hle) hnear,
      shiftToTargetExponent_carry ht]
    rfl

end PrefixIntegral.Binary64
