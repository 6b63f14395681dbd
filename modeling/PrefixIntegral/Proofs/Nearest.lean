import PrefixIntegral.Proofs.Packing

namespace PrefixIntegral.Binary64

open Float.Model (Format UnpackedFloat totalExponent)
open Float.Model.UnpackedFloat

theorem RoundsTo.self {m : Nat} {t : Int} : RoundsTo (m * 2 ^ t) m t := by
  have hunit : (0 : ℚ) < 2 ^ t := zpow_pos two_pos t
  have hgap := lowerGap_pos m t
  have hlower : ((m : ℚ) - lowerGap m t) * 2 ^ t < m * 2 ^ t :=
    mul_lt_mul_of_pos_right (by linarith) hunit
  have hupper : (m : ℚ) * 2 ^ t < (m + 1 / 2) * 2 ^ t :=
    mul_lt_mul_of_pos_right (by linarith) hunit
  exact ⟨hlower.le, hupper.le, fun _ => ⟨hlower, hupper⟩⟩

theorem tells_exact (m : Nat) (e : Int) : Tells (m * 2 ^ e / 2 ^ e) m .exact :=
  mul_div_cancel_right₀ _ (zpow_pos two_pos e).ne'

theorem tells_div (a : Nat) {b : Nat} (hb : 0 < b) :
    Tells (a / b) (a / b : Nat) (accuracyOfFraction (a % b) b) := by
  have hpos : (0 : ℚ) < b := by exact_mod_cast hb
  have hsplit : (a : ℚ) / b = (a / b : Nat) + (a % b : Nat) / b := by
    rw [div_eq_iff hpos.ne', add_mul, div_mul_cancel₀ _ hpos.ne', mul_comm]
    exact_mod_cast (Nat.div_add_mod a b).symm
  have hlt : ((a % b : Nat) : ℚ) < b := by exact_mod_cast Nat.mod_lt a hb
  rw [hsplit, accuracyOfFraction]
  split
  · rename_i hzero
    simp [Tells, hzero]
  · rename_i hne
    have hrest : (0 : ℚ) < (a % b : Nat) / b :=
      div_pos (by exact_mod_cast Nat.pos_of_ne_zero hne) hpos
    have hone : ((a % b : Nat) : ℚ) / b < 1 := (div_lt_one hpos).2 hlt
    cases hcompare : compare (2 * (a % b)) b with
    | lt =>
        have hhalf : ((a % b : Nat) : ℚ) / b < 1 / 2 := by
          rw [div_lt_iff₀ hpos]
          have : ((2 * (a % b) : Nat) : ℚ) < b := by exact_mod_cast compare_lt_iff_lt.1 hcompare
          push_cast at this
          linarith
        exact ⟨by linarith, by linarith⟩
    | eq =>
        have hhalf : ((a % b : Nat) : ℚ) / b = 1 / 2 := by
          rw [div_eq_iff hpos.ne']
          have : ((2 * (a % b) : Nat) : ℚ) = b := by exact_mod_cast compare_eq_iff_eq.1 hcompare
          push_cast at this
          linarith
        show _ = _
        rw [hhalf]
    | gt =>
        have hhalf : 1 / 2 < ((a % b : Nat) : ℚ) / b := by
          rw [lt_div_iff₀ hpos]
          have : (b : ℚ) < (2 * (a % b) : Nat) := by exact_mod_cast compare_gt_iff_gt.1 hcompare
          push_cast at this
          linarith
        exact ⟨by linarith, by linarith⟩

variable {m₁ m₂ m : Nat} {e₁ e₂ t : Int}

theorem mul_eq (h₁ : 0 < m₁) (h₂ : 0 < m₂) (hm : IsCanonical m t)
    (hlong : (2 : ℚ) ^ (e₁ + e₂ + 52) ≤ m₁ * 2 ^ e₁ * (m₂ * 2 ^ e₂))
    (hx : RoundsTo (m₁ * 2 ^ e₁ * (m₂ * 2 ^ e₂)) m t) :
    UnpackedFloat.mul .binary64 (.finite .positive m₁ e₁ h₁) (.finite .positive m₂ e₂ h₂) =
      .finite .positive m t hm.pos := by
  have hvalue : (m₁ : ℚ) * 2 ^ e₁ * (m₂ * 2 ^ e₂) = (m₁ * m₂ : Nat) * 2 ^ (e₁ + e₂) := by
    rw [zpow_add₀ two_ne_zero]
    push_cast
    ring
  rw [hvalue] at hlong hx
  exact roundWithAccuracy_eq (tells_exact _ _) (.inr hlong) hm hx

theorem div_eq (h₁ : 0 < m₁) (h₂ : 0 < m₂) (hm : IsCanonical m t)
    (hx : RoundsTo (m₁ * 2 ^ e₁ / (m₂ * 2 ^ e₂)) m t) :
    UnpackedFloat.div .binary64 (.finite .positive m₁ e₁ h₁) (.finite .positive m₂ e₂ h₂) =
      .finite .positive m t hm.pos := by
  have hpos : (0 : ℚ) < m₂ := by exact_mod_cast h₂
  have hpos₁ : (0 : ℚ) < m₁ := by exact_mod_cast h₁
  let target := min (e₁ - e₂)
    (Format.binary64.targetExponent (totalExponent m₁ e₁ - totalExponent m₂ e₂))
  have htells : Tells (m₁ * 2 ^ e₁ / (m₂ * 2 ^ e₂) / 2 ^ target)
      ((m₁ <<< (e₁ - e₂ - target).toNat) / m₂)
      (accuracyOfFraction ((m₁ <<< (e₁ - e₂ - target).toNat) % m₂) m₂) := by
    have hshift : ((e₁ - e₂ - target).toNat : Int) = e₁ - e₂ - target :=
      Int.toNat_of_nonneg (by omega)
    have hvalue : (m₁ : ℚ) * 2 ^ e₁ / (m₂ * 2 ^ e₂) / 2 ^ target =
        (m₁ <<< (e₁ - e₂ - target).toNat : Nat) / m₂ := by
      rw [Nat.shiftLeft_eq]
      push_cast
      rw [← zpow_natCast, hshift, zpow_sub₀ two_ne_zero, zpow_sub₀ two_ne_zero]
      field_simp
    rw [hvalue]
    exact tells_div _ h₂
  -- The target is low enough to leave the quotient the digits of a full significand.
  have hlong : target ≤ -1074 ∨ 2 ^ (target + 52) ≤ (m₁ : ℚ) * 2 ^ e₁ / (m₂ * 2 ^ e₂) := by
    refine or_iff_not_imp_left.2 ?_
    intro hlow
    have htarget : target ≤ totalExponent m₁ e₁ - totalExponent m₂ e₂ - 53 := by
      have : target ≤ max (totalExponent m₁ e₁ - totalExponent m₂ e₂ - 53) (-1074) :=
        min_le_right _ _
      omega
    have habove := two_zpow_totalExponent_le (tells_exact m₁ e₁) h₁.ne'
    have hbelow := lt_two_zpow_totalExponent (tells_exact m₂ e₂)
    calc
      (2 : ℚ) ^ (target + 52) ≤ 2 ^ (totalExponent m₁ e₁ - 1 - totalExponent m₂ e₂) :=
        zpow_le_zpow_right₀ one_le_two (by omega)
      _ = 2 ^ (totalExponent m₁ e₁ - 1) / 2 ^ totalExponent m₂ e₂ := zpow_sub₀ two_ne_zero _ _
      _ ≤ m₁ * 2 ^ e₁ / (m₂ * 2 ^ e₂) :=
        div_le_div₀ (by positivity) habove (by positivity) hbelow.le
  exact roundWithAccuracy_eq htells hlong hm hx

theorem ofInt_eq {n : Nat} (hn : 0 < n) (hlt : n < 2 ^ 53) :
    UnpackedFloat.ofInt .binary64 n =
      roundWithAccuracy .binary64 .positive (n <<< (52 - n.log2)) ((n.log2 : Int) - 52) .exact := by
  have hlog : n.log2 < 53 := (Nat.log2_lt hn.ne').2 hlt
  have hcompare : compare (n : Int) 0 = .gt := compare_gt_iff_gt.2 (by omega)
  have htarget : Format.binary64.targetExponent (totalExponent n 0) = (n.log2 : Int) - 52 := by
    rw [targetExponent_eq, totalExponent]
    omega
  have hshift : (0 - ((n.log2 : Int) - 52)).toNat = 52 - n.log2 := by omega
  have hexponent : (0 : Int) - (52 - n.log2 : Nat) = (n.log2 : Int) - 52 := by omega
  simp only [UnpackedFloat.ofInt, UnpackedFloat.normalize, hcompare, Int.toNat_natCast,
    UnpackedFloat.round, decreaseExponent, htarget, hshift, hexponent]

theorem exists_unpacked_toFloat {n : Nat} (hn : 0 < n) (hlt : n < 2 ^ 53) :
    ∃ m t hm, unpacked n.toUInt64.toFloat = .finite .positive m t hm ∧ 2 ^ 52 ≤ m ∧
      (m : ℚ) * 2 ^ t = n := by
  have hlog : n.log2 < 53 := (Nat.log2_lt hn.ne').2 hlt
  have hfull : 2 ^ n.log2 * 2 ^ (52 - n.log2) = 2 ^ 52 := by
    rw [← pow_add, Nat.add_sub_cancel' (by omega)]
  have hshift : n <<< (52 - n.log2) = n * 2 ^ (52 - n.log2) := Nat.shiftLeft_eq _ _
  have hge : 2 ^ 52 ≤ n <<< (52 - n.log2) := by
    rw [hshift, ← hfull]
    exact Nat.mul_le_mul_right _ (Nat.log2_self_le hn.ne')
  have hm : IsCanonical (n <<< (52 - n.log2)) ((n.log2 : Int) - 52) := by
    refine ⟨by omega, ?_, by omega, by omega, .inr hge⟩
    calc
      n <<< (52 - n.log2) = n * 2 ^ (52 - n.log2) := hshift
      _ < 2 ^ (n.log2 + 1) * 2 ^ (52 - n.log2) :=
        Nat.mul_lt_mul_of_pos_right Nat.lt_log2_self (by positivity)
      _ = 2 ^ 53 := by
        rw [pow_succ, mul_right_comm, hfull]
        rfl
  have hvalue : ((n <<< (52 - n.log2) : Nat) : ℚ) * 2 ^ ((n.log2 : Int) - 52) = n := by
    have hcancel : ((52 - n.log2 : Nat) : Int) + ((n.log2 : Int) - 52) = 0 := by omega
    rw [hshift]
    push_cast
    rw [mul_assoc, ← zpow_natCast, ← zpow_add₀ two_ne_zero, hcancel, zpow_zero, mul_one]
  have hlong : (2 : ℚ) ^ ((n.log2 : Int) - 52 + 52) ≤
      (n <<< (52 - n.log2) : Nat) * 2 ^ ((n.log2 : Int) - 52) := by
    rw [hvalue, Int.sub_add_cancel, zpow_natCast]
    exact_mod_cast Nat.log2_self_le hn.ne'
  have hpack : n.toUInt64.toFloat = ofUnpacked (UnpackedFloat.ofInt .binary64 n) := by
    have hnat : n.toUInt64.toNat = n := Nat.mod_eq_of_lt (by omega)
    show ofUnpacked (UnpackedFloat.ofInt .binary64 (n.toUInt64.toNat : Nat)) = _
    rw [hnat]
  refine ⟨_, _, hm.pos, ?_, hge, hvalue⟩
  rw [hpack, ofInt_eq hn hlt, roundWithAccuracy_eq (tells_exact _ _) (.inr hlong) hm .self,
    unpacked_finite .positive hm]

theorem exists_unpacked_tablePower {e : Nat} (he : e ≤ 22) :
    ∃ m t hm, unpacked (tablePower e) = .finite .positive m t hm ∧ (m : ℚ) * 2 ^ t = 10 ^ e := by
  obtain ⟨m, t, hm, hunpack, hwhole⟩ := exists_unpack_tablePower he
  refine ⟨m, t, hm, hunpack, ?_⟩
  have heq : (m : ℚ) * 2 ^ t.toNat = 10 ^ e * 2 ^ (-t).toNat := by exact_mod_cast hwhole
  have hpos : (2 : ℚ) ^ (-t).toNat ≠ 0 := by positivity
  rw [← zpow_mul_pow_toNat two_ne_zero, ← mul_assoc] at heq
  exact mul_right_cancel₀ hpos heq

/-- By whole numbers of any length, a decimal number is read as the number in whose interval it
lies. -/
theorem unpackedOfScientific_eq {n : Nat} {e : Int} {m : Nat} {t : Int} (hn : 0 < n)
    (hleast : -2048 ≤ e) (hmost : e ≤ 2048) (hm : IsCanonical m t)
    (hx : RoundsTo (n * 10 ^ e) m t) :
    UnpackedFloat.ofScientific .binary64 n e = .finite .positive m t hm.pos := by
  have habove : ¬e > 2 ^ Format.binary64.exponentBits := by
    show ¬e > 2048
    omega
  have hbelow : ¬e < -(2 ^ Format.binary64.exponentBits + n.log2) := by
    show ¬e < -(2048 + n.log2)
    omega
  have hone : (1 : ℚ) ≤ n := by exact_mod_cast hn
  unfold UnpackedFloat.ofScientific
  rw [dif_neg hn.ne', if_neg habove, if_neg hbelow]
  split
  · rename_i hup
    have hpower : ((10 ^ e.toNat : Nat) : ℚ) * 2 ^ (0 : Int) = 10 ^ e := by
      push_cast
      rw [mul_one, ← zpow_natCast, Int.toNat_of_nonneg hup]
    have hdigits : ((n <<< 53 : Nat) : ℚ) * 2 ^ (-53 : Int) = n := by
      rw [Nat.shiftLeft_eq]
      push_cast
      rw [mul_assoc]
      norm_num
    refine mul_eq _ _ hm ?_ ?_
    · show (2 : ℚ) ^ (-53 + 0 + 52 : Int) ≤ (n <<< 53 : Nat) * 2 ^ (-53 : Int) * _
      rw [hdigits, hpower]
      have hten : (1 : ℚ) ≤ 10 ^ e := one_le_zpow₀ (by norm_num) hup
      calc
        (2 : ℚ) ^ (-53 + 0 + 52 : Int) ≤ 1 := by norm_num
        _ ≤ n * 10 ^ e := one_le_mul_of_one_le_of_one_le hone hten
    · show RoundsTo ((n <<< 53 : Nat) * 2 ^ (-53 : Int) * _) m t
      rwa [hdigits, hpower]
  · rename_i hdown
    have hpower : ((10 ^ (-e).toNat : Nat) : ℚ) * 2 ^ (0 : Int) = 10 ^ (-e) := by
      push_cast
      rw [mul_one, ← zpow_natCast, Int.toNat_of_nonneg (by omega)]
    refine div_eq _ _ hm ?_
    rw [hpower, zpow_zero, mul_one, zpow_neg, div_inv_eq_mul]
    exact hx

theorem ofScientific_eq_of_roundsTo {n e : Nat} {down : Bool} {m : Nat} {t : Int} (hn : 0 < n)
    (he : e ≤ 2048) (hm : IsCanonical m t)
    (hx : RoundsTo (n * 10 ^ (if down then -e else e : Int)) m t) :
    Float.ofScientific n down e = ofUnpacked (.finite .positive m t hm.pos) := by
  rw [ofScientific_eq]
  split
  · rename_i hsmall
    obtain ⟨m₁, t₁, h₁, hunpack₁, hfull, hvalue₁⟩ := exists_unpacked_toFloat hn hsmall.1
    obtain ⟨m₂, t₂, h₂, hunpack₂, hvalue₂⟩ := exists_unpacked_tablePower hsmall.2
    split
    · rename_i hdown
      rw [if_pos hdown, zpow_neg, zpow_natCast, ← div_eq_mul_inv, ← hvalue₁, ← hvalue₂] at hx
      show ofUnpacked (.div .binary64 (unpacked _) (unpacked _)) = _
      rw [hunpack₁, hunpack₂, div_eq h₁ h₂ hm hx]
    · rename_i hup
      rw [if_neg hup, zpow_natCast, ← hvalue₁, ← hvalue₂] at hx
      have hlong : (2 : ℚ) ^ (t₁ + t₂ + 52) ≤ m₁ * 2 ^ t₁ * (m₂ * 2 ^ t₂) := by
        have hfirst : (2 : ℚ) ^ 52 ≤ m₁ := by exact_mod_cast hfull
        have hsecond : (1 : ℚ) ≤ m₂ := by exact_mod_cast h₂
        calc
          (2 : ℚ) ^ (t₁ + t₂ + 52) = 2 ^ 52 * 2 ^ t₁ * (1 * 2 ^ t₂) := by
            rw [zpow_add₀ two_ne_zero, zpow_add₀ two_ne_zero]
            norm_num
            ring
          _ ≤ m₁ * 2 ^ t₁ * (m₂ * 2 ^ t₂) := by gcongr
      show ofUnpacked (.mul .binary64 (unpacked _) (unpacked _)) = _
      rw [hunpack₁, hunpack₂, mul_eq h₁ h₂ hm hlong hx]
  · have hexponent : (if down then Int.negOfNat e else Int.ofNat e) =
        (if down then -e else e : Int) := by
      split
      · exact Int.negOfNat_eq
      · rfl
    show ofUnpacked _ = _
    rw [hexponent, unpackedOfScientific_eq hn (by split <;> omega) (by split <;> omega) hm hx]

end PrefixIntegral.Binary64
