import Mathlib.Computability.Language
import PrefixIntegral.Formula.Literal
import PrefixIntegral.Proofs.Digits

/-!
The pattern of literals as a regular language, and the words in it as exactly those that are read
as literals. Reading takes digits as far as they go; that loses nothing, since no part of the
pattern that follows digits begins with one.
-/

namespace PrefixIntegral.Literal

open scoped Computability

def single (admits : Char → Bool) : Language Char := {w | ∃ c, admits c = true ∧ w = [c]}

def optional (l : Language Char) : Language Char := 1 + l

def isLeading (c : Char) : Bool := '1' ≤ c ∧ c ≤ '9'

def digits : Language Char := (single Text.isDigit)∗

def whole : Language Char := single (· = '0') + single isLeading * digits

def fraction : Language Char := optional (single (· = '.') * digits)

def exponent : Language Char :=
  optional (single (· = 'e') *
    (optional (single (· = '+') + single (· = '-')) * (single isLeading * digits)))

def unsigned : Language Char :=
  whole * (fraction * exponent) + single (· = '.') * (single Text.isDigit * digits)

def pattern : Language Char := optional (single (· = '-')) * unsigned

theorem mem_optional {l : Language Char} {w : Text} : w ∈ optional l ↔ w = [] ∨ w ∈ l := by
  rw [optional, Language.mem_add, Language.mem_one]

@[simp] theorem cons_mem_single_mul {admits : Char → Bool} {l : Language Char} {c : Char}
    {rest : Text} : c :: rest ∈ single admits * l ↔ admits c = true ∧ rest ∈ l := by
  rw [Language.mem_mul]
  constructor
  · rintro ⟨first, ⟨d, hd, rfl⟩, others, hothers, heq⟩
    obtain ⟨rfl, rfl⟩ := List.cons.inj heq
    exact ⟨hd, hothers⟩
  · rintro ⟨hc, hrest⟩
    exact ⟨[c], ⟨c, hc, rfl⟩, rest, hrest, rfl⟩

@[simp] theorem nil_notMem_single_mul {admits : Char → Bool} {l : Language Char} :
    ([] : Text) ∉ single admits * l := by
  rw [Language.mem_mul]
  rintro ⟨first, ⟨d, hd, rfl⟩, others, hothers, heq⟩
  cases heq

theorem mem_digits {w : Text} : w ∈ digits ↔ ∀ c ∈ w, Text.isDigit c = true := by
  rw [digits, Language.mem_kstar]
  constructor
  · rintro ⟨parts, rfl, hparts⟩ c hc
    obtain ⟨part, hpart, hmem⟩ := List.mem_flatten.1 hc
    obtain ⟨d, hd, rfl⟩ := hparts part hpart
    rwa [List.mem_singleton.1 hmem]
  · intro h
    refine ⟨w.map fun c => [c], by simp [← List.flatMap_def], ?_⟩
    intro part hpart
    obtain ⟨c, hc, rfl⟩ := List.mem_map.1 hpart
    exact ⟨c, h c hc, rfl⟩

def NoHead (admits : Char → Bool) (l : Language Char) : Prop :=
  ∀ c rest, c :: rest ∈ l → admits c = false

theorem dropWhile_of_noHead {l : Language Char} (hl : NoHead Text.isDigit l) {before after : Text}
    (hbefore : ∀ c ∈ before, Text.isDigit c = true) (hafter : after ∈ l) :
    (before ++ after).dropWhile Text.isDigit = after := by
  rw [List.dropWhile_append_of_pos hbefore]
  cases after with
  | nil => rfl
  | cons c rest => rw [List.dropWhile_cons, hl c rest hafter]; rfl

theorem mem_digits_mul {l : Language Char} (hl : NoHead Text.isDigit l) {w : Text} :
    w ∈ digits * l ↔ w.dropWhile Text.isDigit ∈ l := by
  rw [Language.mem_mul]
  constructor
  · rintro ⟨before, hbefore, after, hafter, rfl⟩
    rwa [dropWhile_of_noHead hl (mem_digits.1 hbefore) hafter]
  · intro h
    refine ⟨w.takeWhile Text.isDigit, mem_digits.2 ?_, _, h, List.takeWhile_append_dropWhile⟩
    intro c hc
    exact List.all_eq_true.1 List.all_takeWhile c hc

theorem mem_optional_mul {l m : Language Char} {w : Text} :
    w ∈ optional l * m ↔ w ∈ m ∨ w ∈ l * m := by
  rw [optional, add_mul, one_mul, Language.mem_add]

theorem mem_signed {w : Text} :
    w ∈ optional (single (· = '+') + single (· = '-')) * (single isLeading * digits) ↔
      (Text.splitSign w).2 ∈ single isLeading * digits := by
  rw [mem_optional_mul, add_mul, Language.mem_add]
  have hplus : isLeading '+' = false := by decide
  have hminus : isLeading '-' = false := by decide
  unfold Text.splitSign
  split
  · simp [hminus]
  · simp [hplus]
  · rename_i hnotMinus hnotPlus
    cases w with
    | nil => simp
    | cons c rest =>
        have hc : c ≠ '-' := fun h => hnotMinus rest (by rw [h])
        have hc' : c ≠ '+' := fun h => hnotPlus rest (by rw [h])
        simp [hc, hc']

theorem mem_exponent {w : Text} : w ∈ exponent ↔ (readExponent? w).isSome := by
  rw [exponent, mem_optional]
  cases w with
  | nil => simp [readExponent?]
  | cons c rest =>
      rw [cons_mem_single_mul, mem_signed]
      by_cases hc : c = 'e'
      · subst hc
        rw [readExponent?]
        dsimp only
        rcases (Text.splitSign rest).2 with _ | ⟨d, more⟩
        · simp
        · simp [isLeading, mem_digits, and_assoc]
      · simp [readExponent?, hc]

theorem noHead_exponent : NoHead (fun c => Text.isDigit c || c == '.') exponent := by
  intro c rest h
  obtain h | h := mem_optional.1 h
  · cases h
  · rw [of_decide_eq_true (cons_mem_single_mul.1 h).1]
    decide

theorem mem_fraction_mul_exponent {w : Text} :
    w ∈ fraction * exponent ↔ (splitFraction w).2 ∈ exponent := by
  have hdigits : NoHead Text.isDigit exponent := fun c rest h =>
    (Bool.or_eq_false_iff.1 (noHead_exponent c rest h)).1
  rw [fraction, mem_optional_mul, mul_assoc]
  unfold splitFraction
  split
  · rename_i rest
    simp only [cons_mem_single_mul, decide_true, true_and, mem_digits_mul hdigits]
    refine or_iff_right ?_
    intro h
    have := noHead_exponent '.' rest h
    simp at this
  · rename_i hpoint
    cases w with
    | nil => simp
    | cons c rest =>
        have hc : c ≠ '.' := fun h => hpoint rest (by rw [h])
        simp [hc]

theorem noHead_fraction_mul_exponent : NoHead Text.isDigit (fraction * exponent) := by
  intro c rest h
  rw [fraction, mem_optional_mul, mul_assoc] at h
  rcases h with h | h
  · exact (Bool.or_eq_false_iff.1 (noHead_exponent c rest h)).1
  · rw [of_decide_eq_true (cons_mem_single_mul.1 h).1]
    decide

theorem mem_whole_mul {l : Language Char} (hl : NoHead Text.isDigit l) {w : Text} :
    w ∈ whole * l ↔ ∃ p, splitWhole? w = some p ∧ p.2 ∈ l := by
  rw [whole, add_mul, mul_assoc, Language.mem_add]
  cases w with
  | nil => simp [splitWhole?]
  | cons c rest =>
      rw [splitWhole?, cons_mem_single_mul, cons_mem_single_mul, mem_digits_mul hl]
      by_cases hzero : c = '0'
      · subst hzero
        have : isLeading '0' = false := by decide
        simp [this]
      · by_cases hc : '1' ≤ c ∧ c ≤ '9'
        · simp [hzero, hc, isLeading]
        · have : isLeading c = false := by simpa [isLeading] using hc
          simp [hzero, hc, this]

theorem mem_unsigned (negative : Bool) {w : Text} :
    w ∈ unsigned ↔ (readUnsigned? negative w).isSome := by
  rw [unsigned, Language.mem_add, mem_whole_mul noHead_fraction_mul_exponent]
  simp only [mem_fraction_mul_exponent]
  unfold readUnsigned?
  split
  · rename_i rest
    have hwhole : splitWhole? ('.' :: rest) = none := rfl
    cases rest with
    | nil => simp [hwhole]
    | cons c more => simp [hwhole, mem_digits]
  · rename_i hpoint
    have hdot : w ∉ single (· = '.') * (single Text.isDigit * digits) := by
      cases w with
      | nil => simp
      | cons c rest =>
          have hc : c ≠ '.' := fun h => hpoint rest (by rw [h])
          simp [hc]
    cases hsplit : splitWhole? w with
    | none => simp [hdot]
    | some p => simp [hdot, mem_exponent]

theorem noHead_unsigned : NoHead (· = '-') unsigned := by
  intro c rest h
  refine decide_eq_false ?_
  intro hc
  subst hc
  rw [mem_unsigned false] at h
  simp [readUnsigned?, splitWhole?] at h

theorem numeral?_isSome {w : Text} : (numeral? w).isSome ↔ w ∈ pattern := by
  rw [pattern, mem_optional_mul]
  unfold numeral?
  split
  · rename_i rest
    have : '-' :: rest ∉ unsigned := fun h => by simpa using noHead_unsigned '-' rest h
    simp [this, mem_unsigned true]
  · rename_i hminus
    rw [← mem_unsigned false]
    refine (or_iff_left ?_).symm
    cases w with
    | nil => simp
    | cons c rest =>
        have hc : c ≠ '-' := fun h => hminus rest (by rw [h])
        simp [hc]

def isLiteralChar (c : Char) : Bool :=
  Text.isDigit c || c == '-' || c == '+' || c == '.' || c == 'e'

def Within (admits : Char → Bool) (l : Language Char) : Prop := ∀ w ∈ l, ∀ c ∈ w, admits c = true

section Within

variable {admits : Char → Bool} {l m : Language Char}

theorem within_single {first : Char → Bool} (h : ∀ c, first c = true → admits c = true) :
    Within admits (single first) := by
  rintro w ⟨c, hc, rfl⟩ d hd
  rw [List.mem_singleton.1 hd]
  exact h c hc

theorem Within.add (hl : Within admits l) (hm : Within admits m) : Within admits (l + m) := by
  intro w hw
  rw [Language.mem_add] at hw
  exact hw.elim (hl w) (hm w)

theorem Within.mul (hl : Within admits l) (hm : Within admits m) : Within admits (l * m) := by
  intro w hw c hc
  obtain ⟨first, hfirst, second, hsecond, rfl⟩ := Language.mem_mul.1 hw
  exact (List.mem_append.1 hc).elim (hl first hfirst c) (hm second hsecond c)

theorem Within.optional (hl : Within admits l) : Within admits (optional l) := by
  intro w hw
  rcases mem_optional.1 hw with rfl | hw
  · intro c hc
    cases hc
  · exact hl w hw

theorem within_digits (h : ∀ c, Text.isDigit c = true → admits c = true) :
    Within admits digits := fun _ hw c hc => h c (mem_digits.1 hw c hc)

end Within

theorem within_pattern : Within isLiteralChar pattern := by
  have hdigit : ∀ c, Text.isDigit c = true → isLiteralChar c = true := fun c hc => by
    simp [isLiteralChar, hc]
  have hleading : ∀ c, isLeading c = true → isLiteralChar c = true := fun c hc =>
    hdigit c (Text.isDigit_of_isDigit (Text.isDigit_of_leading (of_decide_eq_true hc)))
  have hall : ['0', '-', '+', '.', 'e'].all isLiteralChar = true := by decide
  have hmark : ∀ mark ∈ ['0', '-', '+', '.', 'e'], Within isLiteralChar (single (· = mark)) := by
    intro mark hmem
    refine within_single ?_
    intro c hc
    rw [of_decide_eq_true hc]
    exact List.all_eq_true.1 hall mark hmem
  have hdigits := within_digits hdigit
  have hrun := (within_single hleading).mul hdigits
  have hsign := ((hmark '+' (by simp)).add (hmark '-' (by simp))).optional
  have hexponent := ((hmark 'e' (by simp)).mul (hsign.mul hrun)).optional
  have hfraction := ((hmark '.' (by simp)).mul hdigits).optional
  have hwhole := (hmark '0' (by simp)).add hrun
  exact (hmark '-' (by simp)).optional.mul
    ((hwhole.mul (hfraction.mul hexponent)).add
      ((hmark '.' (by simp)).mul ((within_single hdigit).mul hdigits)))

end PrefixIntegral.Literal
