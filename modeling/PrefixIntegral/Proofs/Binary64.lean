import Mathlib
import PrefixIntegral.Formula.Literal

/-!
Binary64 numbers by their parts. Every number is packed from an unpacked one, and arithmetic that is
given numbers gives numbers, whatever it rounds to. The facts about floats that are built upon come
with no smaller part of the library than the whole.
-/

namespace PrefixIntegral.Binary64

open Float.Model (Format UnpackedFloat)
open Float.Model.UnpackedFloat (Sign Accuracy packComponents packedInfinity roundWithAccuracy)

theorem isNaN_unpack_packComponents {spec : Format} {s : Sign} {exponent : BitVec spec.exponentBits}
    {mantissa : BitVec spec.mantissaBitsWithoutImplicit} (h : exponent ≠ -1#_) :
    (UnpackedFloat.unpack spec (packComponents spec s exponent mantissa)).isNaN = false := by
  simp only [UnpackedFloat.unpack, UnpackedFloat.unpackMantissa_packComponents,
    UnpackedFloat.unpackExponent_packComponents]
  rw [if_neg h]
  split
  · split <;> rfl
  · rfl

theorem isNaN_pack {u : UnpackedFloat} (h : u ≠ .notANumber) :
    (Float.ofModel (Float.Model.pack u)).isNaN = false := by
  show (UnpackedFloat.unpack .binary64 (UnpackedFloat.pack .binary64 u)).isNaN = false
  fun_cases UnpackedFloat.pack .binary64 u with
  | case1 => exact absurd rfl h
  | case2 s => simp [packedInfinity, UnpackedFloat.unpack, UnpackedFloat.isNaN]
  | case3 s => simp [UnpackedFloat.isNaN]
  | case4 s m e hm biased hover =>
      simp [packedInfinity, UnpackedFloat.unpack, UnpackedFloat.isNaN]
  | case5 s m e hm bits biased hover hbits =>
      apply isNaN_unpack_packComponents
      intro hall
      have hsmall : ¬2048 ≤ biased + 1 := hover
      have := congrArg BitVec.toNat hall
      simp only [BitVec.toNat_ofNat, BitVec.neg_one_eq_allOnes, BitVec.toNat_allOnes] at this
      omega
  | case6 s m e hm bits biased hover hbits =>
      apply isNaN_unpack_packComponents
      decide

theorem isNaN_eq_false_iff {x : Float} : x.isNaN = false ↔ x.toModel.unpack ≠ .notANumber := by
  show x.toModel.unpack.isNaN = false ↔ _
  cases x.toModel.unpack <;> simp [UnpackedFloat.isNaN]

theorem roundWithAccuracy_ne_notANumber (spec : Format) (s : Sign) (m : Nat) (e : Int)
    (accuracy : Accuracy) : roundWithAccuracy spec s m e accuracy ≠ .notANumber := by
  unfold roundWithAccuracy
  dsimp only
  split <;> simp

theorem mul_finite_ne_notANumber {spec : Format} {u : UnpackedFloat} (hu : u ≠ .notANumber)
    {s : Sign} {m : Nat} {e : Int} (hm : 0 < m) :
    UnpackedFloat.mul spec u (.finite s m e hm) ≠ .notANumber := by
  cases u <;> simp_all [UnpackedFloat.mul, roundWithAccuracy_ne_notANumber]

theorem div_finite_ne_notANumber {spec : Format} {u : UnpackedFloat} (hu : u ≠ .notANumber)
    {s : Sign} {m : Nat} {e : Int} (hm : 0 < m) :
    UnpackedFloat.div spec u (.finite s m e hm) ≠ .notANumber := by
  cases u <;> simp_all [UnpackedFloat.div, roundWithAccuracy_ne_notANumber]

theorem ofInt_ne_notANumber (spec : Format) (n : Int) :
    UnpackedFloat.ofInt spec n ≠ .notANumber := by
  unfold UnpackedFloat.ofInt UnpackedFloat.normalize
  split <;> simp [UnpackedFloat.round, roundWithAccuracy_ne_notANumber]

theorem ofScientific_ne_notANumber (spec : Format) (m : Nat) (e : Int) :
    UnpackedFloat.ofScientific spec m e ≠ .notANumber := by
  unfold UnpackedFloat.ofScientific
  split
  · simp
  · split
    · simp
    · split
      · simp
      · split
        · exact mul_finite_ne_notANumber (by simp) _
        · exact div_finite_ne_notANumber (by simp) _

def tablePower (e : Nat) : Float := Float.exactlyRepresentablePowersOfTen.getD e 0

def isWhole (n : Nat) : UnpackedFloat → Bool
  | .finite .positive m t _ => m * 2 ^ t.toNat == n * 2 ^ (-t).toNat
  | _ => false

theorem exists_unpack_tablePower {e : Nat} (he : e ≤ 22) :
    ∃ m t hm, (tablePower e).toModel.unpack = .finite .positive m t hm ∧
      m * 2 ^ t.toNat = 10 ^ e * 2 ^ (-t).toNat := by
  have hall : ∀ e : Fin 23, isWhole (10 ^ e.val) (tablePower e.val).toModel.unpack := by decide
  have hwhole := hall ⟨e, by omega⟩
  dsimp only at hwhole
  cases hu : (tablePower e).toModel.unpack with
  | finite s m t hm =>
      rw [hu] at hwhole
      cases s with
      | negative => cases hwhole
      | positive => exact ⟨m, t, hm, rfl, beq_iff_eq.1 hwhole⟩
  | _ => rw [hu] at hwhole; cases hwhole

theorem ofScientific_eq (m : Nat) (s : Bool) (e : Nat) :
    Float.ofScientific m s e =
      if m < 2 ^ 53 ∧ e ≤ 22 then
        if s then m.toUInt64.toFloat / tablePower e else m.toUInt64.toFloat * tablePower e
      else .ofModel (.ofScientific m (if s then .negOfNat e else .ofNat e)) := by
  unfold Float.ofScientific
  split
  · rw [tablePower, Array.getD_eq_getD_getElem?, Array.getElem?_eq_getElem]
    rfl
  · rfl

theorem isNaN_ofScientific (m : Nat) (s : Bool) (e : Nat) :
    (Float.ofScientific m s e).isNaN = false := by
  have hm : m.toUInt64.toFloat.toModel.unpack ≠ .notANumber :=
    isNaN_eq_false_iff.1 (isNaN_pack (ofInt_ne_notANumber _ _))
  rw [ofScientific_eq]
  split
  · rename_i h
    obtain ⟨p, t, hp, hpower, -⟩ := exists_unpack_tablePower h.2
    split
    · apply isNaN_pack
      rw [hpower]
      exact div_finite_ne_notANumber hm hp
    · apply isNaN_pack
      rw [hpower]
      exact mul_finite_ne_notANumber hm hp
  · exact isNaN_pack (ofScientific_ne_notANumber _ _ _)

theorem isNaN_neg {x : Float} (h : x.isNaN = false) : (-x).isNaN = false := by
  apply isNaN_pack
  have := isNaN_eq_false_iff.1 h
  cases hx : x.toModel.unpack <;> simp_all [UnpackedFloat.neg]

theorem isNaN_toFloat (n : Decimal.Numeral) : n.toFloat.isNaN = false := by
  have hinfinite : (1 / 0 : Float).isNaN = false := by decide
  have hzero : (0 : Float).isNaN = false := by decide
  unfold Decimal.Numeral.toFloat
  extract_lets size
  have hsize : size.isNaN = false := by
    unfold size
    split
    · exact hzero
    · split
      · exact hinfinite
      · split
        · exact hzero
        · exact isNaN_ofScientific _ _ _
  split
  · exact isNaN_neg hsize
  · exact hsize

theorem beq_self {x : Float} (hx : x.isNaN = false) : (x == x) = true := by
  rw [Float.isNaN_eq_decide_eq_nan, decide_eq_false_iff_not] at hx
  exact Float.beq_iff_ne_nan_and_eq.2 ⟨hx, hx, .inl rfl⟩

theorem zero_beq {x : Float} (h : (x == 0) = true) : ((0 : Float) == x) = true := by
  obtain ⟨hx, hzero, h⟩ := Float.beq_iff_ne_nan_and_eq.1 h
  refine Float.beq_iff_ne_nan_and_eq.2 ⟨hzero, hx, ?_⟩
  rcases h with rfl | ⟨rfl, -⟩ | ⟨rfl, -⟩
  · exact .inl rfl
  · exact .inl rfl
  · exact .inr (.inl ⟨rfl, rfl⟩)

theorem eq_of_beq {x y : Float} (h : (x == y) = true) (hpos : y ≠ 0) (hneg : y ≠ -0) : x = y := by
  rcases (Float.beq_iff_ne_nan_and_eq.1 h).2.2 with heq | ⟨-, hy⟩ | ⟨-, hy⟩
  · exact heq
  · exact absurd hy hneg
  · exact absurd hy hpos

end PrefixIntegral.Binary64
