import PrefixIntegral.Proofs.Packing

namespace PrefixIntegral.Binary64

open Float.Model (Format UnpackedFloat totalExponent)
open Float.Model.UnpackedFloat

def Alike (x y : Float) : Prop := x = y ∨ ((x = 0 ∨ x = -0) ∧ (y = 0 ∨ y = -0))

theorem Alike.refl (x : Float) : Alike x x := .inl rfl

theorem Alike.symm {x y : Float} (h : Alike x y) : Alike y x := by
  rcases h with heq | ⟨hx, hy⟩
  · exact .inl heq.symm
  · exact .inr ⟨hy, hx⟩

theorem Alike.congr {γ : Type} {f : Float → γ} {x y : Float} (hf : f 0 = f (-0))
    (h : Alike x y) : f x = f y := by
  rcases h with rfl | ⟨rfl | rfl, rfl | rfl⟩
  · rfl
  · rfl
  · exact hf
  · exact hf.symm
  · rfl

theorem isZero_iff {x : Float} : x = 0 ∨ x = -0 ↔ ∃ s, unpacked x = .zero s := by
  constructor
  · rintro (rfl | rfl)
    · exact ⟨.positive, rfl⟩
    · exact ⟨.negative, rfl⟩
  · rintro ⟨s, hs⟩
    rw [← ofUnpacked_unpacked x, hs]
    cases s with
    | positive => exact .inl rfl
    | negative => exact .inr rfl

theorem alike_of_beq {x y : Float} (h : (x == y) = true) : Alike x y := by
  obtain ⟨-, -, heq | ⟨rfl, rfl⟩ | ⟨rfl, rfl⟩⟩ := Float.beq_iff_ne_nan_and_eq.1 h
  · exact .inl heq
  · exact .inr ⟨.inl rfl, .inr rfl⟩
  · exact .inr ⟨.inr rfl, .inl rfl⟩

inductive AlikeParts : UnpackedFloat → UnpackedFloat → Prop
  | refl (u : UnpackedFloat) : AlikeParts u u
  | zeros (s s' : Sign) : AlikeParts (.zero s) (.zero s')

theorem alike_iff {x y : Float} : Alike x y ↔ AlikeParts (unpacked x) (unpacked y) := by
  constructor
  · rintro (rfl | ⟨hx, hy⟩)
    · exact .refl _
    · obtain ⟨s, hs⟩ := isZero_iff.1 hx
      obtain ⟨s', hs'⟩ := isZero_iff.1 hy
      rw [hs, hs']
      exact .zeros s s'
  · intro h
    generalize hu : unpacked x = u at h
    generalize hv : unpacked y = v at h
    cases h with
    | refl => exact .inl (by rw [← ofUnpacked_unpacked x, hu, ← hv, ofUnpacked_unpacked])
    | zeros s s' => exact .inr ⟨isZero_iff.2 ⟨s, hu⟩, isZero_iff.2 ⟨s', hv⟩⟩

theorem AlikeParts.ofUnpacked {u v : UnpackedFloat} (h : AlikeParts u v) :
    Alike (ofUnpacked u) (ofUnpacked v) := by
  cases h with
  | refl => exact .refl _
  | zeros s s' => exact .inr ⟨by cases s <;> decide, by cases s' <;> decide⟩

section Parts

variable {u u' v v' : UnpackedFloat}

theorem AlikeParts.mul (hu : AlikeParts u u') (hv : AlikeParts v v') :
    AlikeParts (UnpackedFloat.mul .binary64 u v) (UnpackedFloat.mul .binary64 u' v') := by
  cases hu with
  | refl u =>
      cases hv with
      | refl => exact .refl _
      | zeros s s' =>
          cases u with
          | notANumber | infinity => exact .refl _
          | zero | finite => exact .zeros _ _
  | zeros s s' =>
      cases hv with
      | refl v =>
          cases v with
          | notANumber | infinity => exact .refl _
          | zero | finite => exact .zeros _ _
      | zeros => exact .zeros _ _

theorem AlikeParts.div (hu : AlikeParts u u') (v : UnpackedFloat) :
    AlikeParts (UnpackedFloat.div .binary64 u v) (UnpackedFloat.div .binary64 u' v) := by
  cases hu with
  | refl => exact .refl _
  | zeros s s' =>
      cases v with
      | notANumber | zero => exact .refl _
      | infinity | finite => exact .zeros _ _

theorem sub_zeros (s s' : Sign) :
    ∃ sign, UnpackedFloat.sub .binary64 (.zero s) (.zero s') = .zero sign := by
  cases s <;> cases s' <;> exact ⟨_, rfl⟩

theorem AlikeParts.sub (hu : AlikeParts u u') (hv : AlikeParts v v') :
    AlikeParts (UnpackedFloat.sub .binary64 u v) (UnpackedFloat.sub .binary64 u' v') := by
  have hzeros (s t s' t' : Sign) : AlikeParts (UnpackedFloat.sub .binary64 (.zero s) (.zero t))
      (UnpackedFloat.sub .binary64 (.zero s') (.zero t')) := by
    obtain ⟨first, hfirst⟩ := sub_zeros s t
    obtain ⟨second, hsecond⟩ := sub_zeros s' t'
    rw [hfirst, hsecond]
    exact .zeros _ _
  cases hu with
  | refl u =>
      cases hv with
      | refl => exact .refl _
      | zeros t t' =>
          cases u with
          | notANumber | infinity | finite => exact .refl _
          | zero s => exact hzeros s t s t'
  | zeros s s' =>
      cases hv with
      | refl v =>
          cases v with
          | notANumber | infinity | finite => exact .refl _
          | zero t => exact hzeros s t s' t
      | zeros t t' => exact hzeros s t s' t'

theorem add_alikeParts (hu : u ≠ .zero .negative) (hv : AlikeParts v v') :
    UnpackedFloat.add .binary64 u v = UnpackedFloat.add .binary64 u v' := by
  cases hv with
  | refl => rfl
  | zeros s s' =>
      cases u with
      | notANumber | infinity | finite => rfl
      | zero sign =>
          cases sign with
          | negative => exact absurd rfl hu
          | positive => cases s <;> cases s' <;> rfl

end Parts

section Arithmetic

variable {x x' y y' : Float}

theorem Alike.mul (hx : Alike x x') (hy : Alike y y') : Alike (x * y) (x' * y') :=
  ((alike_iff.1 hx).mul (alike_iff.1 hy)).ofUnpacked

theorem Alike.sub (hx : Alike x x') (hy : Alike y y') : Alike (x - y) (x' - y') :=
  ((alike_iff.1 hx).sub (alike_iff.1 hy)).ofUnpacked

theorem Alike.div (hx : Alike x x') (y : Float) : Alike (x / y) (x' / y) :=
  ((alike_iff.1 hx).div _).ofUnpacked

theorem Alike.mul_self (hx : Alike x x') : x * x = x' * x' :=
  hx.congr (f := fun x => x * x) (by decide)

theorem ne_negZero_iff : x ≠ -0 ↔ unpacked x ≠ .zero .negative := by
  rw [not_iff_not]
  constructor
  · rintro rfl
    rfl
  · intro h
    rw [← ofUnpacked_unpacked x, h]
    rfl

theorem Alike.add_right (hx : x ≠ -0) (hy : Alike y y') : x + y = x + y' :=
  congrArg ofUnpacked (add_alikeParts (ne_negZero_iff.1 hx) (alike_iff.1 hy))

end Arithmetic

theorem mantissa_shiftRight (em : ExtendedMantissa) (k : Nat) :
    (em >>> k).mantissa = em.mantissa / 2 ^ k := by
  induction k with
  | zero => exact (Nat.div_one _).symm
  | succ k ih =>
      show (em >>> k).mantissa / 2 = _
      rw [ih, Nat.div_div_eq_div_mul, Nat.pow_succ]

theorem mantissa_shiftToTargetExponent {m : Nat} {e : Int} (accuracy : Accuracy)
    (he : -1074 ≤ e) :
    (shiftToTargetExponent .binary64 m e accuracy).1.mantissa = m / 2 ^ (m.log2 - 52) ∧
      e ≤ (shiftToTargetExponent .binary64 m e accuracy).2 := by
  have hshift : (Format.binary64.targetExponent (totalExponent m e) - e).toNat = m.log2 - 52 := by
    rw [targetExponent_eq, totalExponent]
    omega
  rw [shiftToTargetExponent_eq rfl, mantissa_shiftRight, mantissa_ofMantissaAndAccuracy, hshift]
  exact ⟨rfl, by omega⟩

theorem cut_pos {m : Nat} (hm : 0 < m) : 0 < m / 2 ^ (m.log2 - 52) := by
  refine Nat.div_pos ?_ (Nat.two_pow_pos _)
  calc
    2 ^ (m.log2 - 52) ≤ 2 ^ m.log2 := Nat.pow_le_pow_right (by decide) (by omega)
    _ ≤ m := Nat.log2_self_le hm.ne'

theorem cut_lt (m : Nat) : m / 2 ^ (m.log2 - 52) < 2 ^ 53 := by
  rw [Nat.div_lt_iff_lt_mul (Nat.two_pow_pos _), ← Nat.pow_add]
  calc
    m < 2 ^ (m.log2 + 1) := Nat.lt_log2_self
    _ ≤ 2 ^ (53 + (m.log2 - 52)) := Nat.pow_le_pow_right (by decide) (by omega)

theorem le_roundToNearestEven (m : Nat) (accuracy : Accuracy) :
    m ≤ accuracy.roundToNearestEven m := by
  cases accuracy with
  | exact => exact le_refl m
  | inexact half => cases half <;> simp [Accuracy.roundToNearestEven]

theorem exists_roundWithAccuracy (s : Sign) {m : Nat} {e : Int} (accuracy : Accuracy) (hm : 0 < m)
    (he : -1074 ≤ e) : ∃ n t hn, roundWithAccuracy .binary64 s m e accuracy = .finite s n t hn ∧
      n < 2 ^ 53 ∧ -1074 ≤ t := by
  obtain ⟨hmantissa, hle⟩ := mantissa_shiftToTargetExponent accuracy he
  unfold roundWithAccuracy
  dsimp only
  have hrounded : 0 < (shiftToTargetExponent .binary64 m e accuracy).1.roundedMantissa := by
    refine Nat.lt_of_lt_of_le ?_ (le_roundToNearestEven _ _)
    rw [hmantissa]
    exact cut_pos hm
  obtain ⟨hlast, hmore⟩ := @mantissa_shiftToTargetExponent
    (shiftToTargetExponent .binary64 m e accuracy).1.roundedMantissa _ .exact (he.trans hle)
  have hpos := cut_pos hrounded
  rw [← hlast] at hpos
  rw [dif_neg hpos.ne']
  refine ⟨_, _, hpos, rfl, ?_, he.trans (hle.trans hmore)⟩
  rw [hlast]
  exact cut_lt _

theorem ofUnpacked_finite_ne (s : Sign) {m : Nat} {t : Int} (hm : 0 < m) (hlt : m < 2 ^ 53)
    (ht : -1074 ≤ t) : ofUnpacked (.finite s m t hm) ≠ -0 := by
  intro h
  have hpack : UnpackedFloat.pack .binary64 (.finite s m t hm) = packedZero .binary64 .negative :=
    congrArg (·.toModel.toBits.toBitVec) h
  by_cases hmost : t ≤ 971
  · rw [pack_finite s hm hmost] at hpack
    split at hpack
    · have hexponent := congrArg unpackExponent hpack
      rw [unpackExponent_packComponents, packedZero, unpackExponent_packComponents] at hexponent
      exact @ofNat_ne 11 _ 0 (by omega) (by decide) (by omega) hexponent
    · have hmantissa := congrArg unpackMantissa hpack
      rw [unpackMantissa_packComponents, packedZero, unpackMantissa_packComponents] at hmantissa
      have hlog : m.log2 < 53 := (Nat.log2_lt hm.ne').2 hlt
      have hshort : m < 2 ^ 52 := (Nat.log2_lt hm.ne').1 (by omega)
      exact @ofNat_ne 52 _ 0 hshort (by decide) hm.ne' hmantissa
  · have hover : UnpackedFloat.pack .binary64 (.finite s m t hm) = packedInfinity .binary64 s := by
      have hbias : t + Format.binary64.exponentBias + Format.binary64.mantissaBitsWithoutImplicit =
          t + 1075 := by
        rw [Int.add_assoc]
        rfl
      have hlarge : 2 ^ Format.binary64.exponentBits ≤ (t + 1075).toNat + 1 := by
        show 2048 ≤ (t + 1075).toNat + 1
        omega
      simp only [UnpackedFloat.pack, hbias, if_pos hlarge]
    rw [hover] at hpack
    have hexponent := congrArg unpackExponent hpack
    rw [packedInfinity, unpackExponent_packComponents, packedZero,
      unpackExponent_packComponents] at hexponent
    exact absurd hexponent (by decide)

theorem ofUnpacked_normalize_ne (mantissa : Int) {e : Int} (he : -1074 ≤ e) :
    ofUnpacked (UnpackedFloat.normalize .binary64 mantissa e .positive) ≠ -0 := by
  have hround (s : Sign) {m : Nat} (hm : 0 < m) :
      ofUnpacked (UnpackedFloat.round .binary64 s m e) ≠ -0 := by
    unfold UnpackedFloat.round decreaseExponent
    dsimp only
    have htarget : -1074 ≤ Format.binary64.targetExponent (totalExponent m e) := by
      rw [targetExponent_eq]
      exact le_max_right _ _
    have hshifted : 0 < m <<< (e - Format.binary64.targetExponent (totalExponent m e)).toNat := by
      rw [Nat.shiftLeft_eq]
      exact Nat.mul_pos hm (Nat.two_pow_pos _)
    obtain ⟨n, t, hn, hrounded, hlt, hleast⟩ := exists_roundWithAccuracy s .exact hshifted
      (show -1074 ≤ e - (e - Format.binary64.targetExponent (totalExponent m e)).toNat by omega)
    rw [hrounded]
    exact ofUnpacked_finite_ne s hn hlt hleast
  unfold UnpackedFloat.normalize
  split
  · rename_i hlt
    exact hround .negative (by rw [Int.compare_eq_lt] at hlt; omega)
  · decide
  · rename_i hgt
    exact hround .positive (by rw [Int.compare_eq_gt] at hgt; omega)

theorem add_ne_negZero {x : Float} (hx : x ≠ -0) (y : Float) : x + y ≠ -0 := by
  show ofUnpacked (UnpackedFloat.add .binary64 (unpacked x) (unpacked y)) ≠ -0
  have hinfinity (s : Sign) : ofUnpacked (.infinity s) ≠ -0 := by cases s <;> decide
  have hnone : ofUnpacked .notANumber ≠ -0 := by decide
  have hfinite {z : Float} {s : Sign} {m : Nat} {t : Int} {hm : 0 < m}
      (hz : unpacked z = .finite s m t hm) : ofUnpacked (.finite s m t hm) ≠ -0 :=
    ofUnpacked_finite_ne s hm (isCanonical_of_unpacked hz).lt (isCanonical_of_unpacked hz).least
  cases hu : unpacked x with
  | notANumber => exact hnone
  | infinity s =>
      cases hv : unpacked y with
      | notANumber => exact hnone
      | zero | finite => exact hinfinity s
      | infinity s' => cases s <;> cases s' <;> decide
  | zero s =>
      cases hv : unpacked y with
      | notANumber => exact hnone
      | infinity s' => exact hinfinity s'
      | finite s' m t hm => exact hfinite hv
      | zero s' =>
          rw [ne_negZero_iff, hu] at hx
          cases s with
          | negative => exact absurd rfl hx
          | positive => cases s' <;> decide
  | finite s m t hm =>
      cases hv : unpacked y with
      | notANumber => exact hnone
      | infinity s' => exact hinfinity s'
      | zero => exact hfinite hu
      | finite s' m' t' hm' =>
          have hleast := (isCanonical_of_unpacked hu).least
          have hleast' := (isCanonical_of_unpacked hv).least
          exact ofUnpacked_normalize_ne _ (le_min hleast hleast')

end PrefixIntegral.Binary64
