import PrefixIntegral.Decimal.Binary
import PrefixIntegral.Proofs.Binary64
import PrefixIntegral.Proofs.Rounding

namespace PrefixIntegral.Binary64

open Float.Model (Format UnpackedFloat)
open Float.Model.UnpackedFloat (Sign packComponents packedInfinity)

def ofUnpacked (u : UnpackedFloat) : Float := .ofModel (.pack u)

def unpacked (x : Float) : UnpackedFloat := x.toModel.unpack

theorem ofUnpacked_unpacked (x : Float) : ofUnpacked (unpacked x) = x := by
  have h := UnpackedFloat.pack_unpack_of_valid x.toModel.valid
  rw [← Float.toBits_inj]
  exact congrArg UInt64.ofBitVec h

theorem unpacked_ofUnpacked (u : UnpackedFloat) :
    unpacked (ofUnpacked u) = UnpackedFloat.unpack .binary64 (UnpackedFloat.pack .binary64 u) := rfl

theorem toNat_append_mantissa (m : BitVec 52) : (1#1 ++ m).toNat = 2 ^ 52 + m.toNat := by
  rw [BitVec.toNat_append, ← Nat.shiftLeft_add_eq_or_of_lt m.isLt]
  rfl

theorem pack_finite (s : Sign) {m : Nat} {t : Int} (hm : 0 < m) (ht : t ≤ 971) :
    UnpackedFloat.pack .binary64 (.finite s m t hm) =
      if m.log2 = 52 then packComponents .binary64 s (.ofNat _ (t + 1075).toNat) (.ofNat _ m)
      else packComponents .binary64 s 0 (.ofNat _ m) := by
  have hbias : t + Format.binary64.exponentBias + Format.binary64.mantissaBitsWithoutImplicit =
      t + 1075 := by
    rw [Int.add_assoc]
    rfl
  have hfits : ¬2 ^ Format.binary64.exponentBits ≤ (t + 1075).toNat + 1 := by
    show ¬2048 ≤ (t + 1075).toNat + 1
    omega
  have hlength : m.log2 + 1 = Format.binary64.mantissaBits ↔ m.log2 = 52 := by
    show m.log2 + 1 = 53 ↔ _
    omega
  simp only [UnpackedFloat.pack, hbias, if_neg hfits, hlength]
  rfl

theorem ofNat_ne {w n k : Nat} (hn : n < 2 ^ w) (hk : k < 2 ^ w) (h : n ≠ k) :
    BitVec.ofNat w n ≠ BitVec.ofNat w k := by
  intro heq
  have heq := congrArg BitVec.toNat heq
  rw [BitVec.toNat_ofNat, BitVec.toNat_ofNat, Nat.mod_eq_of_lt hn, Nat.mod_eq_of_lt hk] at heq
  exact h heq

theorem unpack_normal (s : Sign) {m : Nat} {t : Int} (hm : 0 < m) (hfull : 2 ^ 52 ≤ m)
    (hlt : m < 2 ^ 53) (hleast : -1074 ≤ t) (hmost : t ≤ 971) :
    UnpackedFloat.unpack .binary64
      (packComponents .binary64 s (.ofNat 11 (t + 1075).toNat) (.ofNat 52 m)) =
        .finite s m t hm := by
  have hexponent : (BitVec.ofNat 11 (t + 1075).toNat).toNat = (t + 1075).toNat := by
    rw [BitVec.toNat_ofNat, Nat.mod_eq_of_lt (by omega)]
  have hmantissa : (1#1 ++ BitVec.ofNat 52 m).toNat = m := by
    rw [toNat_append_mantissa, BitVec.toNat_ofNat]
    omega
  have hones : BitVec.ofNat 11 (t + 1075).toNat ≠ -1#11 :=
    @ofNat_ne 11 _ 2047 (by omega) (by decide) (by omega)
  have hzeros : BitVec.ofNat 11 (t + 1075).toNat ≠ 0#11 :=
    ofNat_ne (by omega) (by decide) (by omega)
  simp only [UnpackedFloat.unpack, UnpackedFloat.unpackMantissa_packComponents,
    UnpackedFloat.unpackExponent_packComponents, UnpackedFloat.unpackSign_packComponents,
    UnpackedFloat.Sign.ofBitVec_toBitVec, if_neg hones, if_neg hzeros, hmantissa, hexponent]
  congr 1
  show ((t + 1075).toNat : Int) - 1075 = t
  omega

theorem unpack_subnormal (s : Sign) {m : Nat} (hm : 0 < m) (hlt : m < 2 ^ 52) :
    UnpackedFloat.unpack .binary64 (packComponents .binary64 s 0 (.ofNat 52 m)) =
      .finite s m (-1074) hm := by
  have hmantissa : (BitVec.ofNat 52 m).toNat = m := by
    rw [BitVec.toNat_ofNat, Nat.mod_eq_of_lt hlt]
  have hnonzero : BitVec.ofNat 52 m ≠ 0#52 := ofNat_ne hlt (by decide) hm.ne'
  have hones : (0 : BitVec 11) ≠ -1#11 := by decide
  have hzero : (0 : BitVec 11) = 0#11 := rfl
  simp only [UnpackedFloat.unpack, UnpackedFloat.unpackMantissa_packComponents,
    UnpackedFloat.unpackExponent_packComponents, UnpackedFloat.unpackSign_packComponents,
    UnpackedFloat.Sign.ofBitVec_toBitVec, if_neg hones, hmantissa]
  rw [if_pos hzero, dif_neg hnonzero]
  rfl

theorem unpacked_finite (s : Sign) {m : Nat} {t : Int} (h : IsCanonical m t) :
    unpacked (ofUnpacked (.finite s m t h.pos)) = .finite s m t h.pos := by
  have hlog : m.log2 < 53 := (Nat.log2_lt h.pos.ne').2 h.lt
  rw [unpacked_ofUnpacked, pack_finite s h.pos h.most]
  by_cases hfull : 2 ^ 52 ≤ m
  · have hge : 52 ≤ m.log2 := (Nat.le_log2 h.pos.ne').2 hfull
    rw [if_pos (by omega)]
    exact unpack_normal s h.pos hfull h.lt h.least h.most
  · have hlt : m < 2 ^ 52 := Nat.lt_of_not_le hfull
    have hlength : m.log2 < 52 := (Nat.log2_lt h.pos.ne').2 hlt
    -- A significand that is not full has the least exponent, which is not stored.
    obtain rfl : t = -1074 := h.full.resolve_right hfull
    rw [if_neg (by omega)]
    exact unpack_subnormal s h.pos hlt

def isMinus : Sign → Bool
  | .negative => true
  | .positive => false

def signField (b : BitVec 64) : Sign := .ofBitVec (@UnpackedFloat.unpackSign .binary64 b)

def exponentField (b : BitVec 64) : BitVec 11 := @UnpackedFloat.unpackExponent .binary64 b

def fractionField (b : BitVec 64) : BitVec 52 := @UnpackedFloat.unpackMantissa .binary64 b

theorem toNat_fractionField (b : BitVec 64) : (fractionField b).toNat = b.toNat % 2 ^ 52 := by
  rw [fractionField, UnpackedFloat.unpackMantissa_def, BitVec.extractLsb'_toNat,
    Nat.shiftRight_zero]

theorem toNat_exponentField (b : BitVec 64) :
    (exponentField b).toNat = b.toNat / 2 ^ 52 % 2 ^ 11 := by
  rw [exponentField, UnpackedFloat.unpackExponent_def, BitVec.extractLsb'_toNat,
    Nat.shiftRight_eq_div_pow]

theorem isMinus_signField (b : BitVec 64) : isMinus (signField b) = (b.toNat / 2 ^ 63 == 1) := by
  have hlt : b.toNat / 2 ^ 63 < 2 := by
    have := b.isLt
    omega
  have hsign : (@UnpackedFloat.unpackSign .binary64 b).toNat = b.toNat / 2 ^ 63 := by
    rw [UnpackedFloat.unpackSign_def, BitVec.extractLsb'_toNat, Nat.shiftRight_eq_div_pow]
    exact Nat.mod_eq_of_lt hlt
  unfold signField Sign.ofBitVec
  split
  · rename_i hzero
    rw [hzero] at hsign
    rw [← hsign]
    rfl
  · rename_i hone
    have hne : b.toNat / 2 ^ 63 ≠ 0 := fun h => hone (BitVec.eq_of_toNat_eq (hsign.trans h))
    exact (beq_iff_eq.2 (by omega)).symm

theorem unpack_eq (b : BitVec 64) :
    UnpackedFloat.unpack .binary64 b =
      if exponentField b = -1#11 then
        if fractionField b = 0#52 then .infinity (signField b) else .notANumber
      else if exponentField b = 0#11 then
        if h : fractionField b = 0#52 then .zero (signField b)
        else .finite (signField b) (fractionField b).toNat (-1074)
          (Nat.pos_of_ne_zero fun hzero => h (BitVec.eq_of_toNat_eq hzero))
      else .finite (signField b) (2 ^ 52 + (fractionField b).toNat) ((exponentField b).toNat - 1075)
        (Nat.add_pos_left (by decide) _) := by
  have hmantissa := toNat_append_mantissa (fractionField b)
  by_cases hones : exponentField b = -1#11
  · rw [if_pos hones]
    exact if_pos hones
  · rw [if_neg hones]
    by_cases hzeros : exponentField b = 0#11
    · rw [if_pos hzeros]
      refine (if_neg hones).trans ((if_pos hzeros).trans ?_)
      by_cases hnone : fractionField b = 0#52
      · rw [dif_pos hnone]
        exact dif_pos hnone
      · rw [dif_neg hnone]
        refine (dif_neg hnone).trans ?_
        congr 1
        show ((exponentField b).toNat : Int) - 1075 + 1 = -1074
        rw [hzeros]
        rfl
    · rw [if_neg hzeros]
      refine (if_neg hones).trans ((if_neg hzeros).trans ?_)
      congr 1

def wholeParts : UnpackedFloat → Decimal.Parts
  | .notANumber => .nan
  | .infinity s => .infinite (isMinus s)
  | .zero s => .finite (isMinus s) 0 (-1074)
  | .finite s m t _ => .finite (isMinus s) m t

theorem parts_eq (x : Float) : Decimal.parts x = wholeParts (unpacked x) := by
  obtain ⟨⟨⟨b⟩, valid⟩⟩ := x
  have hparts : Decimal.parts ⟨⟨⟨b⟩, valid⟩⟩ =
      if (exponentField b).toNat = 2047 then
        if (fractionField b).toNat = 0 then .infinite (isMinus (signField b)) else .nan
      else if (exponentField b).toNat = 0 then
        .finite (isMinus (signField b)) (fractionField b).toNat (-1074)
      else
        .finite (isMinus (signField b)) ((fractionField b).toNat + 2 ^ 52)
          ((exponentField b).toNat - 1075) := by
    rw [isMinus_signField, toNat_exponentField, toNat_fractionField]
    rfl
  have hones : exponentField b = -1#11 ↔ (exponentField b).toNat = 2047 := BitVec.toNat_inj.symm
  have hzeros : exponentField b = 0#11 ↔ (exponentField b).toNat = 0 := BitVec.toNat_inj.symm
  have hnone : fractionField b = 0#52 ↔ (fractionField b).toNat = 0 := BitVec.toNat_inj.symm
  rw [hparts]
  show _ = wholeParts (UnpackedFloat.unpack .binary64 b)
  rw [unpack_eq]
  simp only [hones, hzeros, hnone]
  split
  · split <;> rfl
  · split
    · split
      · rename_i hfraction
        rw [hfraction]
        rfl
      · rfl
    · rw [Nat.add_comm]
      rfl

theorem isCanonical_of_unpacked {x : Float} {s : Sign} {m : Nat} {t : Int} {hm : 0 < m}
    (h : unpacked x = .finite s m t hm) : IsCanonical m t := by
  obtain ⟨⟨⟨b⟩, valid⟩⟩ := x
  have hunpack : UnpackedFloat.unpack .binary64 b = .finite s m t hm := h
  rw [unpack_eq] at hunpack
  have hfraction : (fractionField b).toNat < 2 ^ 52 := (fractionField b).isLt
  have hexponent : (exponentField b).toNat < 2 ^ 11 := (exponentField b).isLt
  split at hunpack
  · split at hunpack <;> cases hunpack
  · rename_i hones
    have hmost : (exponentField b).toNat ≠ 2047 := fun heq => hones (BitVec.eq_of_toNat_eq heq)
    split at hunpack
    · split at hunpack
      · cases hunpack
      · cases hunpack
        exact ⟨hm, by omega, by omega, by omega, .inl rfl⟩
    · rename_i hzeros
      have hleast : (exponentField b).toNat ≠ 0 := fun heq => hzeros (BitVec.eq_of_toNat_eq heq)
      cases hunpack
      exact ⟨hm, by omega, by omega, by omega, .inr (by omega)⟩

theorem unpacked_of_isNaN {v : Float} (h : v.isNaN = false) :
    ∃ s, isMinus s = Decimal.signBit v ∧ (unpacked v = .infinity s ∨ unpacked v = .zero s ∨
      ∃ m t hm, unpacked v = .finite s m t hm) := by
  obtain ⟨⟨⟨b⟩, valid⟩⟩ := v
  refine ⟨signField b, isMinus_signField b, ?_⟩
  have hnumber := isNaN_eq_false_iff.1 h
  change UnpackedFloat.unpack .binary64 b ≠ _ at hnumber
  show UnpackedFloat.unpack .binary64 b = _ ∨ UnpackedFloat.unpack .binary64 b = _ ∨
    ∃ m t hm, UnpackedFloat.unpack .binary64 b = _
  rw [unpack_eq] at hnumber ⊢
  split
  · split
    · exact .inl rfl
    · simp_all
  · split
    · split
      · exact .inr (.inl rfl)
      · rename_i hfraction
        have hpos : 0 < (fractionField b).toNat :=
          Nat.pos_of_ne_zero fun hzero => hfraction (BitVec.eq_of_toNat_eq hzero)
        exact .inr (.inr ⟨_, _, hpos, rfl⟩)
    · exact .inr (.inr ⟨_, _, Nat.add_pos_left (by decide) _, rfl⟩)

theorem le_zero_iff {v : Float} :
    v ≤ 0 ↔ (UnpackedFloat.compare (unpacked v) (.zero .positive)).any (·.isLE) := by
  show v.le 0 = true ↔ _
  rw [Float.le, decide_eq_true_iff]
  rfl

theorem le_zero_of_signBit {v : Float} (hsign : Decimal.signBit v) (h : v.isNaN = false) :
    v ≤ 0 := by
  obtain ⟨s, hs, hunpacked⟩ := unpacked_of_isNaN h
  rw [hsign] at hs
  cases s with
  | positive => cases hs
  | negative =>
      rw [le_zero_iff]
      obtain hinfinite | hzero | ⟨m, t, hm, hfinite⟩ := hunpacked
      · rw [hinfinite]
        rfl
      · rw [hzero]
        rfl
      · rw [hfinite]
        rfl

theorem isNaN_of_le_zero {v : Float} (h : v ≤ 0) : v.isNaN = false := by
  rw [isNaN_eq_false_iff]
  intro hnone
  rw [le_zero_iff, show unpacked v = .notANumber from hnone] at h
  cases h

end PrefixIntegral.Binary64
