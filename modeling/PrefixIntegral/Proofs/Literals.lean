import Mathlib.Algebra.Order.Field.Power
import Mathlib.Tactic.Linarith
import Mathlib.Tactic.Ring
import PrefixIntegral.Decimal.Layout
import PrefixIntegral.Formula.Literal
import PrefixIntegral.Proofs.Digits

namespace PrefixIntegral

namespace Literal

def IsSignificant (digits : Text) : Prop :=
  ∃ c rest, digits = c :: rest ∧ ('1' ≤ c ∧ c ≤ '9') ∧ ∀ d ∈ rest, d.isDigit = true

theorem isSignificant_toDigits {n : Nat} (hn : 0 < n) : IsSignificant (Nat.toDigits 10 n) := by
  induction n using Nat.strongRecOn with
  | _ n ih =>
      rw [Nat.toDigits_eq_if (by decide)]
      split
      · have hall : ∀ n : Fin 10, n.val ≠ 0 → '1' ≤ n.val.digitChar ∧ n.val.digitChar ≤ '9' := by
          decide
        rename_i hlt
        exact ⟨n.digitChar, [], rfl, hall ⟨n, hlt⟩ hn.ne', by simp⟩
      · obtain ⟨c, rest, hdigits, hc, hrest⟩ := ih (n / 10) (by omega) (by omega)
        refine ⟨c, rest ++ [(n % 10).digitChar], by rw [hdigits]; rfl, hc, ?_⟩
        intro d hd
        rcases List.mem_append.1 hd with hd | hd
        · exact hrest d hd
        · rw [List.mem_singleton.1 hd]
          simpa using Nat.mod_lt n (by decide)

theorem takeWhile_isDigit {digits rest : Text} (hdigits : ∀ c ∈ digits, c.isDigit = true)
    (hrest : ∀ c ∈ rest.head?, Text.isDigit c = false) :
    (digits ++ rest).takeWhile Text.isDigit = digits ∧
      (digits ++ rest).dropWhile Text.isDigit = rest := by
  have hall : ∀ c ∈ digits, Text.isDigit c = true := fun c hc =>
    Text.isDigit_of_isDigit (hdigits c hc)
  rw [List.takeWhile_append_of_pos hall, List.dropWhile_append_of_pos hall]
  cases rest with
  | nil => simp
  | cons c rest => simp [hrest c rfl]

theorem splitWhole?_append {whole rest : Text} (hwhole : whole = ['0'] ∨ IsSignificant whole)
    (hrest : ∀ c ∈ rest.head?, Text.isDigit c = false) :
    splitWhole? (whole ++ rest) = some (whole, rest) := by
  rcases hwhole with rfl | ⟨c, digits, rfl, hc, hdigits⟩
  · rfl
  · have hzero : c ≠ '0' := by
      rintro rfl
      revert hc
      decide
    obtain ⟨htake, hdrop⟩ := takeWhile_isDigit hdigits hrest
    rw [List.cons_append, splitWhole?, if_neg hzero, if_pos hc, htake, hdrop]

def fractionText (fraction : Text) : Text := if fraction = [] then [] else '.' :: fraction

theorem head_of_readExponent? {tail : Text} {e : Int} (h : readExponent? tail = some e) :
    ∀ c ∈ tail.head?, c = 'e' := by
  unfold readExponent? at h
  split at h
  · simp
  · simp
  · cases h

theorem isDigit_head_of_readExponent? {tail : Text} {e : Int} (h : readExponent? tail = some e) :
    ∀ c ∈ tail.head?, Text.isDigit c = false := by
  intro c hc
  rw [head_of_readExponent? h c hc]
  decide

theorem isDigit_head_fractionText {fraction tail : Text}
    (htail : ∀ c ∈ tail.head?, Text.isDigit c = false) :
    ∀ c ∈ (fractionText fraction ++ tail).head?, Text.isDigit c = false := by
  unfold fractionText
  split
  · exact htail
  · rintro c hc
    cases hc
    decide

theorem splitFraction_append {fraction tail : Text} {e : Int}
    (hfraction : ∀ c ∈ fraction, c.isDigit = true) (htail : readExponent? tail = some e) :
    splitFraction (fractionText fraction ++ tail) = (fraction, tail) := by
  unfold fractionText
  split
  · rename_i hnone
    rw [hnone, List.nil_append]
    cases tail with
    | nil => rfl
    | cons c more =>
        rw [head_of_readExponent? htail c rfl]
        rfl
  · obtain ⟨htake, hdrop⟩ := takeWhile_isDigit hfraction (isDigit_head_of_readExponent? htail)
    rw [List.cons_append, splitFraction, htake, hdrop]

theorem readUnsigned?_append {whole fraction tail : Text} {e : Int} (negative : Bool)
    (hwhole : whole = ['0'] ∨ IsSignificant whole) (hfraction : ∀ c ∈ fraction, c.isDigit = true)
    (htail : readExponent? tail = some e) :
    readUnsigned? negative (whole ++ (fractionText fraction ++ tail)) =
      some ⟨negative, Text.numeralValue (whole ++ fraction), e - fraction.length⟩ := by
  have hrest := @isDigit_head_fractionText fraction _ (isDigit_head_of_readExponent? htail)
  unfold readUnsigned?
  split
  · rename_i heq
    rcases hwhole with rfl | ⟨c, digits, rfl, hc, -⟩
    · cases heq
    · cases heq
      exact absurd hc (by decide)
  · rw [splitWhole?_append hwhole hrest]
    dsimp only
    rw [splitFraction_append hfraction htail]
    dsimp only
    rw [htail]
    rfl

theorem splitSign_of_leading {c : Char} (hc : '1' ≤ c ∧ c ≤ '9') (rest : Text) :
    Text.splitSign (c :: rest) = (false, c :: rest) := by
  unfold Text.splitSign
  split
  · rename_i heq
    cases heq
    exact absurd hc (by decide)
  · rename_i heq
    cases heq
    exact absurd hc (by decide)
  · rfl

theorem readExponent?_of_splitSign {signed digits : Text} {negative : Bool}
    (hsplit : Text.splitSign signed = (negative, digits)) (hdigits : IsSignificant digits) :
    readExponent? ('e' :: signed) =
      some (if negative then -(Text.numeralValue digits : Int) else Text.numeralValue digits) := by
  obtain ⟨c, rest, rfl, hc, hrest⟩ := hdigits
  have hall : rest.all Text.isDigit = true :=
    List.all_eq_true.2 fun d hd => Text.isDigit_of_isDigit (hrest d hd)
  rw [readExponent?, hsplit]
  exact if_pos ⟨hc.1, hc.2, hall⟩

theorem readExponent?_exponentText {e : Int} (he : e ≠ 0) :
    readExponent? (Decimal.exponentText false 1 e) = some e := by
  have hdigits := isSignificant_toDigits (Int.natAbs_pos.2 he)
  have hvalue := Text.numeralValue_toDigits e.natAbs
  have hpad : Text.padLeft 1 '0' (Nat.toDigits 10 e.natAbs) = Nat.toDigits 10 e.natAbs := by
    have hlength : 1 - (Nat.toDigits 10 e.natAbs).length = 0 := by
      have := @Nat.length_toDigits_pos 10 e.natAbs
      omega
    rw [Text.padLeft, hlength]
    rfl
  unfold Decimal.exponentText
  rw [hpad]
  by_cases hneg : e < 0
  · have hsplit : Text.splitSign ('-' :: Nat.toDigits 10 e.natAbs) =
        (true, Nat.toDigits 10 e.natAbs) := rfl
    rw [if_pos hneg]
    refine (readExponent?_of_splitSign hsplit hdigits).trans ?_
    rw [if_pos rfl, hvalue, Int.ofNat_natAbs_of_nonpos hneg.le, Int.neg_neg]
  · have hsplit : Text.splitSign (Nat.toDigits 10 e.natAbs) =
        (false, Nat.toDigits 10 e.natAbs) := by
      obtain ⟨c, rest, heq, hc, -⟩ := hdigits
      rw [heq]
      exact splitSign_of_leading hc rest
    rw [if_neg hneg]
    refine (readExponent?_of_splitSign hsplit hdigits).trans ?_
    rw [if_neg Bool.false_ne_true, hvalue, Int.natAbs_of_nonneg (not_lt.1 hneg)]

theorem numeral?_signText {whole : Text} (negative : Bool) (rest : Text)
    (hwhole : whole = ['0'] ∨ IsSignificant whole) :
    numeral? (Decimal.signText negative ++ (whole ++ rest)) =
      readUnsigned? negative (whole ++ rest) := by
  cases negative with
  | true => rfl
  | false =>
      rcases hwhole with rfl | ⟨c, digits, rfl, hc, -⟩
      · rfl
      · unfold numeral?
        split
        · rename_i heq
          cases heq
          exact absurd hc (by decide)
        · rfl

theorem IsSignificant.append {digits more : Text} (h : IsSignificant digits)
    (hmore : ∀ c ∈ more, c.isDigit = true) : IsSignificant (digits ++ more) := by
  obtain ⟨c, rest, rfl, hc, hrest⟩ := h
  refine ⟨c, rest ++ more, rfl, hc, ?_⟩
  intro d hd
  exact (List.mem_append.1 hd).elim (hrest d) (hmore d)

theorem IsSignificant.take {digits : Text} (h : IsSignificant digits) (count : Nat) :
    IsSignificant (digits.take (count + 1)) := by
  obtain ⟨c, rest, rfl, hc, hrest⟩ := h
  exact ⟨c, rest.take count, rfl, hc, fun d hd => hrest d (List.mem_of_mem_take hd)⟩

def Spells (body : Text) (n : Nat) (e : Int) : Prop :=
  ∀ negative, numeral? (Decimal.signText negative ++ body) = some ⟨negative, n, e⟩

theorem spells_append {whole fraction tail : Text} {e : Int}
    (hwhole : whole = ['0'] ∨ IsSignificant whole) (hfraction : ∀ c ∈ fraction, c.isDigit = true)
    (htail : readExponent? tail = some e) :
    Spells (whole ++ (fractionText fraction ++ tail)) (Text.numeralValue (whole ++ fraction))
      (e - fraction.length) := by
  intro negative
  rw [numeral?_signText negative _ hwhole, readUnsigned?_append negative hwhole hfraction htail]

variable {point : Nat} {power : Int}

theorem spells_below {e : Int} (he : e < 0) :
    Spells (Decimal.positional true (Nat.toDigits 10 point) e) point
      (e + 1 - (Nat.toDigits 10 point).length) := by
  have hdigits := @Text.isDigit_of_mem_toDigits point
  generalize hcount : (-e - 1).toNat = count
  have hfraction : ∀ c ∈ List.replicate count '0' ++ Nat.toDigits 10 point, c.isDigit = true :=
    fun c hc => (List.mem_append.1 hc).elim (Text.isDigit_of_mem_zeros c) (hdigits c)
  have hspells := @spells_append ['0'] _ [] 0 (.inl rfl) hfraction rfl
  have htext : Decimal.positional true (Nat.toDigits 10 point) e =
      ['0'] ++ (fractionText (List.replicate count '0' ++ Nat.toDigits 10 point) ++ []) := by
    rw [Decimal.positional, if_pos he, hcount, fractionText, if_neg (by simp)]
    simp
  have hvalue : Text.numeralValue (['0'] ++ (List.replicate count '0' ++ Nat.toDigits 10 point)) =
      point := by
    rw [← List.append_assoc, ← List.replicate_one, ← List.replicate_add,
      Text.numeralValue_zeros_append _ hdigits, Text.numeralValue_toDigits]
  have hexponent : (0 : Int) - (List.replicate count '0' ++ Nat.toDigits 10 point).length =
      e + 1 - (Nat.toDigits 10 point).length := by
    rw [List.length_append, List.length_replicate]
    omega
  rwa [hvalue, hexponent, ← htext] at hspells

theorem spells_whole (hpoint : 0 < point) {e : Int} (he : 0 ≤ e)
    (hlength : (Nat.toDigits 10 point).length ≤ e.toNat + 1) :
    Spells (Decimal.positional true (Nat.toDigits 10 point) e)
      (point * 10 ^ (e.toNat + 2 - (Nat.toDigits 10 point).length)) (-1) := by
  have hdigits := @Text.isDigit_of_mem_toDigits point
  generalize hcount : e.toNat + 1 - (Nat.toDigits 10 point).length = count
  have hwhole : IsSignificant (Nat.toDigits 10 point ++ List.replicate count '0') :=
    (isSignificant_toDigits hpoint).append Text.isDigit_of_mem_zeros
  have hspells := @spells_append _ ['0'] [] 0 (.inr hwhole) (by simp) rfl
  have htext : Decimal.positional true (Nat.toDigits 10 point) e =
      Nat.toDigits 10 point ++ List.replicate count '0' ++ (fractionText ['0'] ++ []) := by
    rw [Decimal.positional, if_neg (by omega)]
    dsimp only
    rw [if_pos hlength, hcount]
    rfl
  have hvalue : Text.numeralValue (Nat.toDigits 10 point ++ List.replicate count '0' ++ ['0']) =
      point * 10 ^ (e.toNat + 2 - (Nat.toDigits 10 point).length) := by
    have hone : count + 1 = e.toNat + 2 - (Nat.toDigits 10 point).length := by omega
    rw [List.append_assoc, ← List.replicate_one, ← List.replicate_add,
      Text.numeralValue_append_zeros _ hdigits, Text.numeralValue_toDigits, hone]
  rwa [hvalue, ← htext] at hspells

theorem spells_mixed (hpoint : 0 < point) {e : Int} (he : 0 ≤ e)
    (hlength : e.toNat + 1 < (Nat.toDigits 10 point).length) :
    Spells (Decimal.positional true (Nat.toDigits 10 point) e) point
      (e + 1 - (Nat.toDigits 10 point).length) := by
  generalize hlead : e.toNat + 1 = lead at hlength
  have hwhole : IsSignificant ((Nat.toDigits 10 point).take lead) :=
    hlead ▸ (isSignificant_toDigits hpoint).take e.toNat
  have hfraction : ∀ c ∈ (Nat.toDigits 10 point).drop lead, c.isDigit = true := fun c hc =>
    Text.isDigit_of_mem_toDigits c (List.mem_of_mem_drop hc)
  have hspells := @spells_append _ _ [] 0 (.inr hwhole) hfraction rfl
  have htext : Decimal.positional true (Nat.toDigits 10 point) e =
      (Nat.toDigits 10 point).take lead ++
        (fractionText ((Nat.toDigits 10 point).drop lead) ++ []) := by
    rw [Decimal.positional, if_neg (by omega)]
    dsimp only
    rw [hlead, if_neg (by omega), fractionText, if_neg, List.append_nil]
    rw [List.drop_eq_nil_iff]
    omega
  have hexponent : (0 : Int) - ((Nat.toDigits 10 point).drop lead).length =
      e + 1 - (Nat.toDigits 10 point).length := by
    rw [List.length_drop]
    omega
  rwa [List.take_append_drop, Text.numeralValue_toDigits, hexponent, ← htext] at hspells

theorem spells_scientific (hpoint : 0 < point) {e : Int} (he : e ≠ 0) :
    Spells (Decimal.scientific false 1 (Nat.toDigits 10 point) e) point
      (e + 1 - (Nat.toDigits 10 point).length) := by
  have hlength := @Nat.length_toDigits_pos 10 point
  have hwhole : IsSignificant ((Nat.toDigits 10 point).take 1) :=
    (isSignificant_toDigits hpoint).take 0
  have hfraction : ∀ c ∈ (Nat.toDigits 10 point).drop 1, c.isDigit = true := fun c hc =>
    Text.isDigit_of_mem_toDigits c (List.mem_of_mem_drop hc)
  have hspells := spells_append (.inr hwhole) hfraction (readExponent?_exponentText he)
  have htext : Decimal.scientific false 1 (Nat.toDigits 10 point) e =
      (Nat.toDigits 10 point).take 1 ++
        (fractionText ((Nat.toDigits 10 point).drop 1) ++ Decimal.exponentText false 1 e) := by
    rw [Decimal.scientific, fractionText, List.append_assoc]
    simp only [List.drop_eq_nil_iff]
  have hexponent : e - ((Nat.toDigits 10 point).drop 1).length =
      e + 1 - (Nat.toDigits 10 point).length := by
    rw [List.length_drop]
    omega
  rwa [List.take_append_drop, Text.numeralValue_toDigits, hexponent, ← htext] at hspells

theorem exists_numeral?_write (hpoint : 0 < point) (power : Int) :
    ∃ (n : Nat) (e : Int), 0 < n ∧ (n : ℚ) * 10 ^ e = point * 10 ^ power ∧ (e = power ∨ e = -1) ∧
      ∀ negative, numeral? (Decimal.Layout.literal.write negative (Nat.toDigits 10 point)
        (power + (Nat.toDigits 10 point).length - 1)) = some ⟨negative, n, e⟩ := by
  generalize hlead : power + (Nat.toDigits 10 point).length - 1 = lead
  have hpower : lead + 1 - (Nat.toDigits 10 point).length = power := by omega
  simp only [Decimal.Layout.write]
  split
  · rcases Int.lt_or_le lead 0 with hneg | hnonneg
    · exact ⟨point, power, hpoint, rfl, .inl rfl, hpower ▸ spells_below hneg⟩
    · rcases Nat.lt_or_ge (lead.toNat + 1) (Nat.toDigits 10 point).length with hlong | hshort
      · exact ⟨point, power, hpoint, rfl, .inl rfl, hpower ▸ spells_mixed hpoint hnonneg hlong⟩
      · refine ⟨_, -1, ?_, ?_, .inr rfl, spells_whole hpoint hnonneg hshort⟩
        · positivity
        · have hsum : ((lead.toNat + 2 - (Nat.toDigits 10 point).length : Nat) : Int) + -1 =
              power := by omega
          rw [Nat.cast_mul, Nat.cast_pow, Nat.cast_ofNat, mul_assoc, ← zpow_natCast,
            ← zpow_add₀ (by norm_num), hsum]
  · rename_i hrange
    have hne : lead ≠ 0 := by
      rintro rfl
      exact hrange (by decide)
    exact ⟨point, power, hpoint, rfl, .inl rfl, hpower ▸ spells_scientific hpoint hne⟩

end Literal

end PrefixIntegral
