import Mathlib.Data.List.Basic
import PrefixIntegral.Proofs.Digits
import PrefixIntegral.Settings.Resolve

/-!
Whole numbers given as decimal text. Blanks around the text do not count, nor, for an order, does
the word before the number, in capitals or small letters; what is left is read as the number itself.
-/

namespace PrefixIntegral

namespace Text

variable {drop : Char → Bool} {before core after : Text}

theorem dropWhile_before (hbefore : ∀ c ∈ before, drop c = true)
    (hcore : ∀ c ∈ core, drop c = false) (hne : core ≠ []) :
    (before ++ (core ++ after)).dropWhile drop = core ++ after := by
  rw [List.dropWhile_append_of_pos hbefore]
  obtain ⟨c, rest, rfl⟩ := List.exists_cons_of_ne_nil hne
  rw [List.cons_append, List.dropWhile_cons_of_neg]
  simp [hcore c]

theorem trimBoth_surrounded (hbefore : ∀ c ∈ before, drop c = true)
    (hcore : ∀ c ∈ core, drop c = false) (hafter : ∀ c ∈ after, drop c = true) (hne : core ≠ []) :
    trimBoth drop (before ++ core ++ after) = core := by
  have hback : ((core ++ after).reverse.dropWhile drop) = core.reverse := by
    rw [List.reverse_append, ← List.append_nil core.reverse]
    exact dropWhile_before (by simpa using hafter) (by simpa using hcore) (by simpa using hne)
  rw [trimBoth, List.append_assoc, dropWhile_before hbefore hcore hne, hback, List.reverse_reverse]

theorem trimBoth_core (hcore : ∀ c ∈ core, drop c = false) (hne : core ≠ []) :
    trimBoth drop core = core := by
  have h : trimBoth drop ([] ++ core ++ []) = core := trimBoth_surrounded nofun hcore nofun hne
  rwa [List.nil_append, List.append_nil] at h

theorem dropUnderscores_of_none {t : Text} (h : ∀ c ∈ t, c ≠ '_') (afterDigit : Bool) :
    dropUnderscores afterDigit t = some t := by
  induction t generalizing afterDigit with
  | nil => rfl
  | cons c rest ih =>
      obtain ⟨hc, hrest⟩ := List.forall_mem_cons.1 h
      rw [dropUnderscores, if_neg hc, ih hrest]
      rfl

theorem capitalForm_of_ascii {c : Char} (h : c.toNat < 128) : capitalForm c = [c.toUpper] := by
  have hnone : asciiCapitalForms.find? (·.1 == c.toNat) = none := by
    refine List.find?_eq_none.2 fun form hmem => ?_
    have hall : ∀ form ∈ asciiCapitalForms, 128 ≤ form.1 := by decide
    have := hall form hmem
    simp
    omega
  rw [capitalForm, hnone]

theorem toCapitals_of_ascii {t : Text} (h : ∀ c ∈ t, c.toNat < 128) :
    toCapitals t = t.map Char.toUpper := by
  rw [toCapitals, List.flatMap_congr fun c hc => capitalForm_of_ascii (h c hc)]
  exact List.map_eq_flatMap.symm

theorem toList_toString (n : Int) : (toString n).toList =
    (if n < 0 then ['-'] else []) ++ Nat.toDigits 10 n.natAbs := by
  cases n with
  | ofNat m =>
      have hsign : ¬Int.ofNat m < 0 := Int.not_lt.2 (Int.natCast_nonneg m)
      rw [if_neg hsign]
      exact String.toList_ofList
  | negSucc m =>
      rw [if_pos (Int.negSucc_lt_zero m)]
      show ("-" ++ Nat.repr (m + 1)).toList = _
      rw [String.toList_append]
      exact congrArg _ String.toList_ofList

def IsDecimal (c : Char) : Prop := c = '-' ∨ c.isDigit = true
  deriving Decidable

theorem isDecimal_of_mem {n : Int} : ∀ c ∈ (toString n).toList, IsDecimal c := by
  intro c hmem
  rw [toList_toString, List.mem_append] at hmem
  obtain hsign | hdigit := hmem
  · split at hsign
    · exact .inl (List.mem_singleton.1 hsign)
    · cases hsign
  · exact .inr (isDigit_of_mem_toDigits c hdigit)

namespace IsDecimal

variable {c : Char}

theorem toNat_range (h : IsDecimal c) : 45 ≤ c.toNat ∧ c.toNat < 58 := by
  obtain rfl | hdigit := h
  · decide
  · simp only [Char.isDigit, Bool.and_eq_true, decide_eq_true_eq] at hdigit
    exact ⟨Nat.le_trans (by decide) hdigit.1, Nat.lt_succ_of_le hdigit.2⟩

theorem isBlank (h : IsDecimal c) : Text.isBlank c = false := by
  obtain rfl | hdigit := h
  · decide
  · exact isBlank_of_isDigit (isDigit_of_isDigit hdigit)

theorem isPadding (h : IsDecimal c) : Text.isPadding c = false := by
  rw [Text.isPadding, h.isBlank]
  rfl

theorem ne_underscore (h : IsDecimal c) : c ≠ '_' := by
  rintro rfl
  have hrange := h.toNat_range
  revert hrange
  decide

theorem toUpper (h : IsDecimal c) : c.toUpper = c := by
  have hrange := h.toNat_range
  have hsmall : ¬(c.val ≥ 'a'.val ∧ c.val ≤ 'z'.val) := by
    rintro ⟨hlow, -⟩
    have : 97 ≤ c.toNat := hlow
    omega
  exact dif_neg hsmall

end IsDecimal

theorem toString_ne_nil (n : Int) : (toString n).toList ≠ [] := by
  rw [toList_toString]
  exact List.append_ne_nil_of_right_ne_nil _ (Nat.toDigits_ne_nil)

theorem splitSign_toString (n : Int) :
    splitSign (toString n).toList = (decide (n < 0), Nat.toDigits 10 n.natAbs) := by
  rw [toList_toString]
  by_cases hneg : n < 0
  · rw [if_pos hneg, decide_eq_true hneg]
    rfl
  · rw [if_neg hneg, decide_eq_false hneg, List.nil_append]
    have hdigits := @isDigit_of_mem_toDigits n.natAbs
    unfold splitSign
    split
    · rename_i rest heq
      exact absurd (hdigits '-' (by simp [heq])) (by decide)
    · rename_i rest heq
      exact absurd (hdigits '+' (by simp [heq])) (by decide)
    · rfl

theorem readWhole?_toString {n : Int} (hlimit : (Nat.toDigits 10 n.natAbs).length ≤ numeralLimit) :
    readWhole? (toString n).toList = some n := by
  have htrim : trimBoth isPadding (toString n).toList = (toString n).toList :=
    trimBoth_core (fun c hc => (isDecimal_of_mem c hc).isPadding) (toString_ne_nil n)
  have hplain : dropUnderscores false (toString n).toList = some (toString n).toList :=
    dropUnderscores_of_none (fun c hc => (isDecimal_of_mem c hc).ne_underscore) false
  have hdigits : (Nat.toDigits 10 n.natAbs).all isDigit = true :=
    List.all_eq_true.2 fun c hc => isDigit_of_isDigit (isDigit_of_mem_toDigits c hc)
  have hsome : (Nat.toDigits 10 n.natAbs).isEmpty = false := by simp [Nat.toDigits_ne_nil]
  rw [readWhole?, htrim, hplain]
  simp only [splitSign_toString, hdigits, hsome, numeralValue_toDigits]
  rw [if_neg (by simpa using hlimit)]
  by_cases hneg : n < 0
  · rw [if_pos (decide_eq_true hneg), Int.ofNat_natAbs_of_nonpos (Int.le_of_lt hneg), Int.neg_neg]
  · rw [if_neg (by simpa using hneg), Int.natAbs_of_nonneg (Int.not_lt.1 hneg)]

theorem toCapitals_toString (n : Int) : toCapitals (toString n).toList = (toString n).toList := by
  have hdecimal := @isDecimal_of_mem n
  rw [toCapitals_of_ascii fun c hc => Nat.lt_trans (hdecimal c hc).toNat_range.2 (by decide)]
  exact (List.map_congr_left fun c hc => (hdecimal c hc).toUpper).trans (List.map_id _)

end Text

namespace Settings

open Text

variable {n : Int} {before after : Text}

/-- The word before the number of an order, each letter of it a capital or a small one. -/
def IsOrderWord (word : Text) : Prop := word.map Char.toUpper = orderWord

theorem of_toUpper_mem {c : Char} (h : c.toUpper ∈ orderWord) :
    c.toNat < 128 ∧ isBlank c = false := by
  by_cases hsmall : c.val ≥ 'a'.val ∧ c.val ≤ 'z'.val
  · have hlow : 97 ≤ c.toNat := hsmall.1
    have hhigh : c.toNat ≤ 122 := hsmall.2
    refine ⟨by omega, ?_⟩
    simp only [isBlank, Bool.or_eq_false_iff, Bool.and_eq_false_iff, decide_eq_false_iff_not,
      beq_eq_false_iff_ne]
    omega
  · have hall : (orderWord.all fun c => c.toNat < 128 ∧ isBlank c = false) = true := by decide
    have hsame : c.toUpper = c := dif_neg hsmall
    exact of_decide_eq_true (List.all_eq_true.1 hall c (hsame ▸ h))

theorem IsOrderWord.of_mem {word : Text} (h : IsOrderWord word) {c : Char} (hc : c ∈ word) :
    c.toNat < 128 ∧ isBlank c = false :=
  of_toUpper_mem (h ▸ List.mem_map_of_mem hc)

theorem resolveGrain_of_text {name word : Text} (htrim : trim name = word)
    (hpreset : presets.find? (·.1 = toCapitals word) = none) (hread : readWhole? word = some n) :
    resolveGrain (.text name) = resolveGrain (.integer n) := by
  subst htrim
  unfold resolveGrain
  simp only [hpreset, hread]
  rfl

theorem resolveOrder_of_text {name numeral : Text}
    (hnumeral : (if orderWord.isPrefixOf (toCapitals (trim name)) then
      (toCapitals (trim name)).drop orderWord.length else toCapitals (trim name)) = numeral)
    (hread : readWhole? numeral = some n) :
    resolveOrder (.text name) = resolveOrder (.integer n) := by
  unfold resolveOrder
  simp only [hnumeral, hread]
  rfl

theorem not_prefix_toString {word : Text} (hword : (word.all fun c => IsDecimal c) = false) :
    ¬word <+: (toString n).toList := by
  intro hbegins
  have hall : (word.all fun c => IsDecimal c) = true :=
    List.all_eq_true.2 fun c hc => decide_eq_true (isDecimal_of_mem c (hbegins.subset hc))
  cases hword.symm.trans hall

variable (hlimit : (Nat.toDigits 10 n.natAbs).length ≤ numeralLimit)
  (hbefore : ∀ c ∈ before, isBlank c = true) (hafter : ∀ c ∈ after, isBlank c = true)

include hlimit hbefore hafter

theorem resolveGrain_toString :
    resolveGrain (.text (before ++ (toString n).toList ++ after)) = resolveGrain (.integer n) := by
  refine resolveGrain_of_text (trimBoth_surrounded hbefore
    (fun c hc => (isDecimal_of_mem c hc).isBlank) hafter (toString_ne_nil n)) ?_
    (readWhole?_toString hlimit)
  have hpresets :
      (presets.all fun preset => (preset.1.all fun c => IsDecimal c) = false) = true := by decide
  refine List.find?_eq_none.2 fun preset hmem => ?_
  have hletters := of_decide_eq_true (List.all_eq_true.1 hpresets preset hmem)
  rw [toCapitals_toString, decide_eq_true_iff]
  intro heq
  exact not_prefix_toString hletters ⟨[], by rw [List.append_nil, heq]⟩

theorem resolveOrder_toString {word : Text} (hword : word = [] ∨ IsOrderWord word) :
    resolveOrder (.text (before ++ (word ++ (toString n).toList) ++ after)) =
      resolveOrder (.integer n) := by
  have hdecimal := @isDecimal_of_mem n
  have hcore : ∀ c ∈ word ++ (toString n).toList, isBlank c = false := by
    rw [List.forall_mem_append]
    refine ⟨fun c hc => ?_, fun c hc => (hdecimal c hc).isBlank⟩
    obtain rfl | hletters := hword
    · cases hc
    · exact (hletters.of_mem hc).2
  have htrim : trim (before ++ (word ++ (toString n).toList) ++ after) =
      word ++ (toString n).toList :=
    trimBoth_surrounded hbefore hcore hafter
      (List.append_ne_nil_of_right_ne_nil _ (toString_ne_nil n))
  refine resolveOrder_of_text ?_ (readWhole?_toString hlimit)
  rw [htrim]
  obtain rfl | hletters := hword
  · have hword : ¬orderWord <+: (toString n).toList := not_prefix_toString (by decide)
    rw [List.nil_append, toCapitals_toString, if_neg (mt List.isPrefixOf_iff_prefix.1 hword)]
  · have hcapitals : toCapitals (word ++ (toString n).toList) =
        orderWord ++ (toString n).toList := by
      rw [toCapitals, List.flatMap_append]
      show toCapitals word ++ toCapitals (toString n).toList = _
      rw [toCapitals_toString, toCapitals_of_ascii fun c hc => (hletters.of_mem hc).1, hletters]
    rw [hcapitals, if_pos, List.drop_left]
    simp

end Settings

end PrefixIntegral
