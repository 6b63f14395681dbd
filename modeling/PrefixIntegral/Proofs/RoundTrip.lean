import PrefixIntegral.Proofs.Literals
import PrefixIntegral.Proofs.Nearest
import PrefixIntegral.Proofs.Shortest

namespace PrefixIntegral.Binary64

open Float.Model (UnpackedFloat)
open Float.Model.UnpackedFloat (Sign)
open Decimal (Numeral)

theorem neg_ofUnpacked (x : Float) : -x = ofUnpacked (unpacked x).neg := rfl

def signOf (negative : Bool) : Sign := if negative then .negative else .positive

theorem toFloat_eq_of_roundsTo {negative : Bool} {n : Nat} {e : Int} {m : Nat} {t : Int}
    (hn : 0 < n) (hleast : -350 ≤ e) (hmost : e ≤ 350) (hm : IsCanonical m t)
    (hx : RoundsTo (n * 10 ^ e) m t) :
    Numeral.toFloat ⟨negative, n, e⟩ = ofUnpacked (.finite (signOf negative) m t hm.pos) := by
  have hexponent : (if decide (e < 0) then -(e.natAbs : Int) else (e.natAbs : Int)) = e := by
    simp only [decide_eq_true_eq]
    split <;> omega
  have hread := @ofScientific_eq_of_roundsTo n e.natAbs (decide (e < 0)) m t hn (by omega) hm
    (hexponent.symm ▸ hx)
  have hnear : ¬Decimal.reach < e := by
    show ¬400 < e
    omega
  have hfar : ¬((Nat.log2 n + 1 : Nat) : Int) * 30103 / 100000 + 1 + e < -Decimal.reach := by
    show ¬_ < (-400 : Int)
    omega
  unfold Numeral.toFloat
  simp only [if_neg hn.ne', if_neg hnear, if_neg hfar, hread]
  cases negative with
  | false => rfl
  | true => rw [if_pos rfl, neg_ofUnpacked, unpacked_finite .positive hm]; rfl

end PrefixIntegral.Binary64

namespace PrefixIntegral.Literal

open Binary64

theorem write_eq (x : Float) :
    write x = match wholeParts (unpacked x) with
      | .nan => ['n', 'a', 'n']
      | .infinite negative => Decimal.signText negative ++ ['1', 'e', '9', '9', '9']
      | .finite negative significand exponent =>
        if significand = 0 then Decimal.Layout.literal.write negative ['0'] 0
        else
          let (point, power) := Decimal.shortest significand exponent
          Decimal.Layout.literal.write negative (Nat.toDigits 10 point)
            (power + (Nat.toDigits 10 point).length - 1) := by
  rw [← parts_eq]
  rfl

/-- The literal of a number is read back as that number, bit for bit. -/
theorem read?_write {x : Float} (hx : x.isNaN = false) : read? (write x) = some x := by
  rw [write_eq]
  cases hu : unpacked x with
  | notANumber => exact absurd hu (isNaN_eq_false_iff.1 hx)
  | infinity s =>
      rw [← ofUnpacked_unpacked x, hu]
      cases s <;> decide
  | zero s =>
      rw [← ofUnpacked_unpacked x, hu]
      cases s <;> decide
  | finite s m t hm =>
      have hcanonical := isCanonical_of_unpacked hu
      obtain ⟨point, power, hshortest, hpoint, hrounds, hleast, hmost⟩ :=
        shortest_spec hcanonical
      obtain ⟨n, e, hn, hvalue, hexponent, hnumeral⟩ := exists_numeral?_write hpoint power
      rw [← hvalue] at hrounds
      have hsign : signOf (isMinus s) = s := by cases s <;> rfl
      simp only [wholeParts, if_neg hm.ne', hshortest]
      rw [read?, hnumeral, Option.map_some,
        toFloat_eq_of_roundsTo hn (by omega) (by omega) hcanonical hrounds, hsign, ← hu,
        ofUnpacked_unpacked]

end PrefixIntegral.Literal
