import Mathlib.Algebra.Group.Nat.Defs
import Mathlib.Data.List.Basic
import Mathlib.Data.List.Induction
import PrefixIntegral.Text.Numeral

namespace PrefixIntegral

namespace Text

theorem digitValue?_of_isDigit {c : Char} (h : c.isDigit = true) :
    digitValue? c = some (c.toNat - 48) := by
  have hrange : 48 ≤ c.toNat ∧ c.toNat < 58 := by
    simp only [Char.isDigit, Bool.and_eq_true, decide_eq_true_eq] at h
    exact ⟨h.1, Nat.lt_succ_of_le h.2⟩
  rw [digitValue?, digitZeros, List.find?_cons_of_pos (by simpa using hrange)]
  rfl

theorem isDigit_of_isDigit {c : Char} (h : c.isDigit = true) : isDigit c = true := by
  rw [isDigit, digitValue?_of_isDigit h]
  rfl

theorem isDigit_of_leading {c : Char} (h : '1' ≤ c ∧ c ≤ '9') : c.isDigit = true := by
  have hlow : 49 ≤ c.toNat := h.1
  have hhigh : c.toNat ≤ 57 := h.2
  simp only [Char.isDigit, Bool.and_eq_true, decide_eq_true_eq]
  exact ⟨Nat.le_trans (by decide) hlow, hhigh⟩

theorem isDigit_of_mem_toDigits {n : Nat} : ∀ c ∈ Nat.toDigits 10 n, c.isDigit = true :=
  fun _ hc => Nat.isDigit_of_mem_toDigits (by decide) (by decide) hc

theorem isDigit_of_mem_zeros {count : Nat} : ∀ c ∈ List.replicate count '0', c.isDigit = true := by
  intro c hc
  rw [List.eq_of_mem_replicate hc]
  rfl

theorem isBlank_of_isDigit {c : Char} (h : isDigit c = true) : isBlank c = false := by
  have hall : digitZeros.all (fun start =>
      (List.range 10).all fun k => !isBlank (Char.ofNat (start + k))) = true := by
    decide +kernel
  obtain ⟨value, hvalue⟩ := Option.isSome_iff_exists.1 h
  obtain ⟨start, hstart, -⟩ := Option.map_eq_some_iff.1 hvalue
  have hmem := List.mem_of_find?_eq_some hstart
  have hrange := List.find?_some hstart
  simp only [Bool.and_eq_true, decide_eq_true_eq] at hrange
  have hblank := List.all_eq_true.1 (List.all_eq_true.1 hall start hmem) (c.toNat - start)
    (List.mem_range.2 (by omega))
  rw [Nat.add_sub_cancel' hrange.1, Char.ofNat_toNat] at hblank
  simpa using hblank

theorem numeralValue_eq {digits : Text} (h : ∀ c ∈ digits, c.isDigit = true) :
    numeralValue digits = Nat.ofDigitChars 10 digits 0 := by
  rw [numeralValue, Nat.ofDigitChars]
  refine List.foldl_ext _ _ _ ?_
  intro value c hc
  rw [digitValue?_of_isDigit (h c hc)]
  rfl

theorem numeralValue_toDigits (n : Nat) : numeralValue (Nat.toDigits 10 n) = n := by
  rw [numeralValue_eq isDigit_of_mem_toDigits, Nat.ofDigitChars_ten_toDigits]

theorem numeralValue_zeros_append (count : Nat) {digits : Text}
    (h : ∀ c ∈ digits, c.isDigit = true) :
    numeralValue (List.replicate count '0' ++ digits) = numeralValue digits := by
  have hall : ∀ c ∈ List.replicate count '0' ++ digits, c.isDigit = true := fun c hc =>
    (List.mem_append.1 hc).elim (isDigit_of_mem_zeros c) (h c)
  rw [numeralValue_eq hall, numeralValue_eq h, Nat.ofDigitChars_append,
    Nat.ofDigitChars_replicate_zero, Nat.mul_zero]

theorem numeralValue_append_zeros (count : Nat) {digits : Text}
    (h : ∀ c ∈ digits, c.isDigit = true) :
    numeralValue (digits ++ List.replicate count '0') = numeralValue digits * 10 ^ count := by
  have hall : ∀ c ∈ digits ++ List.replicate count '0', c.isDigit = true := fun c hc =>
    (List.mem_append.1 hc).elim (h c) (isDigit_of_mem_zeros c)
  rw [numeralValue_eq hall, numeralValue_eq h, Nat.ofDigitChars_append,
    Nat.ofDigitChars_replicate_zero, Nat.mul_comm]

theorem digitValue?_lt {c : Char} {value : Nat} (h : digitValue? c = some value) : value < 10 := by
  obtain ⟨start, hstart, rfl⟩ := Option.map_eq_some_iff.1 h
  have hrange := List.find?_some hstart
  simp only [Bool.and_eq_true, decide_eq_true_eq] at hrange
  omega

theorem numeralValue_lt (digits : Text) : numeralValue digits < 10 ^ digits.length := by
  induction digits using List.reverseRecOn with
  | nil => exact Nat.one_pos
  | append_singleton rest c ih =>
      have hdigit : (digitValue? c).getD 0 < 10 := by
        cases hvalue : digitValue? c with
        | none => exact Nat.succ_pos 9
        | some value => exact digitValue?_lt hvalue
      rw [numeralValue, List.foldl_append, List.length_append]
      show 10 * numeralValue rest + _ < 10 ^ rest.length * 10
      omega

theorem isSome_writeWhole?_of_readWhole? {t : Text} {n : Int} (h : readWhole? t = some n) :
    (writeWhole? n).isSome := by
  unfold readWhole? at h
  split at h
  · cases h
  · rename_i plain _
    dsimp only at h
    split at h
    · cases h
    · rename_i hsound
      simp only [Bool.or_eq_true, decide_eq_true_iff, not_or, Nat.not_lt] at hsound
      have hvalue : n.natAbs = numeralValue (splitSign plain).2 := by
        obtain rfl := Option.some.inj h
        split <;> omega
      have hlt : n.natAbs < 10 ^ numeralLimit := by
        rw [hvalue]
        exact Nat.lt_of_lt_of_le (numeralValue_lt _) (Nat.pow_le_pow_right (by decide) hsound.2)
      rw [writeWhole?, if_pos ((Nat.length_toDigits_le_iff (by decide) (by decide)).2 hlt)]
      rfl

end Text

end PrefixIntegral
