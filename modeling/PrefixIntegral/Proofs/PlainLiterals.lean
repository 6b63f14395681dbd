import PrefixIntegral.Formula.Reader
import PrefixIntegral.Proofs.Pattern

namespace PrefixIntegral.Literal

open scoped Computability

/-- Literals with digits of a class: an optional minus, a zero or digits of which the first is no
zero, an optional fraction and an optional exponent; or an optional minus, a point and digits. -/
def grammar (digit : Char → Bool) : Language Char :=
  optional (single (· = '-')) * ((single (· = '0') + single isLeading * (single digit)∗) *
      (optional (single (· = '.') * (single digit)∗) *
        optional (single (· = 'e') * (optional (single (· = '+') + single (· = '-')) *
          (single isLeading * (single digit)∗))))) +
    optional (single (· = '-')) * (single (· = '.') * (single digit * (single digit)∗))

theorem grammar_isDigit : grammar Text.isDigit = pattern := (mul_add _ _ _).symm

/-- The words of the smaller language are those of the larger one in which every character of the
wide class is in the narrow one. -/
def Restricts (narrow wide : Char → Bool) (small large : Language Char) : Prop :=
  ∀ w, w ∈ small ↔ w ∈ large ∧ ∀ c ∈ w, wide c = true → narrow c = true

section Restricts

variable {narrow wide : Char → Bool} {l l' m m' : Language Char}

theorem restricts_single {first first' : Char → Bool}
    (h : ∀ c, first c = true ↔ first' c = true ∧ (wide c = true → narrow c = true)) :
    Restricts narrow wide (single first) (single first') := by
  intro w
  constructor
  · rintro ⟨c, hc, rfl⟩
    exact ⟨⟨c, ((h c).1 hc).1, rfl⟩, by simpa using ((h c).1 hc).2⟩
  · rintro ⟨⟨c, hc, rfl⟩, hplain⟩
    exact ⟨c, (h c).2 ⟨hc, hplain c (by simp)⟩, rfl⟩

theorem Restricts.add (hl : Restricts narrow wide l l') (hm : Restricts narrow wide m m') :
    Restricts narrow wide (l + m) (l' + m') := by
  intro w
  rw [Language.mem_add, Language.mem_add, hl w, hm w, or_and_right]

theorem Restricts.mul (hl : Restricts narrow wide l l') (hm : Restricts narrow wide m m') :
    Restricts narrow wide (l * m) (l' * m') := by
  intro w
  rw [Language.mem_mul, Language.mem_mul]
  constructor
  · rintro ⟨first, hfirst, second, hsecond, rfl⟩
    obtain ⟨hfirst, hplain⟩ := (hl first).1 hfirst
    obtain ⟨hsecond, hplain'⟩ := (hm second).1 hsecond
    refine ⟨⟨first, hfirst, second, hsecond, rfl⟩, ?_⟩
    intro c hc
    exact (List.mem_append.1 hc).elim (hplain c) (hplain' c)
  · rintro ⟨⟨first, hfirst, second, hsecond, rfl⟩, hplain⟩
    refine ⟨first, (hl first).2 ⟨hfirst, ?_⟩, second, (hm second).2 ⟨hsecond, ?_⟩, rfl⟩
    · exact fun c hc => hplain c (List.mem_append_left _ hc)
    · exact fun c hc => hplain c (List.mem_append_right _ hc)

theorem Restricts.optional (hl : Restricts narrow wide l l') :
    Restricts narrow wide (optional l) (optional l') := by
  intro w
  rw [mem_optional, mem_optional, hl w]
  constructor
  · rintro (rfl | ⟨hw, hplain⟩)
    · exact ⟨.inl rfl, by simp⟩
    · exact ⟨.inr hw, hplain⟩
  · rintro ⟨rfl | hw, hplain⟩
    · exact .inl rfl
    · exact .inr ⟨hw, hplain⟩

theorem Restricts.kstar (hl : Restricts narrow wide l l') : Restricts narrow wide l∗ l'∗ := by
  intro w
  rw [Language.mem_kstar, Language.mem_kstar]
  constructor
  · rintro ⟨parts, rfl, hparts⟩
    refine ⟨⟨parts, rfl, fun part hpart => ((hl part).1 (hparts part hpart)).1⟩, ?_⟩
    intro c hc
    obtain ⟨part, hpart, hmem⟩ := List.mem_flatten.1 hc
    exact ((hl part).1 (hparts part hpart)).2 c hmem
  · rintro ⟨⟨parts, rfl, hparts⟩, hplain⟩
    refine ⟨parts, rfl, fun part hpart => (hl part).2 ⟨hparts part hpart, ?_⟩⟩
    exact fun c hc => hplain c (List.mem_flatten.2 ⟨part, hpart, hc⟩)

end Restricts

theorem restricts_grammar :
    Restricts Char.isDigit Text.isDigit (grammar Char.isDigit) (grammar Text.isDigit) := by
  have hdigit : Restricts Char.isDigit Text.isDigit (single Char.isDigit) (single Text.isDigit) :=
    restricts_single fun c => ⟨fun hc => ⟨Text.isDigit_of_isDigit hc, fun _ => hc⟩,
      fun ⟨hc, hplain⟩ => hplain hc⟩
  have hleading : Restricts Char.isDigit Text.isDigit (single isLeading) (single isLeading) :=
    restricts_single fun c => ⟨fun hc => ⟨hc, fun _ =>
      Text.isDigit_of_leading (of_decide_eq_true hc)⟩, And.left⟩
  have hmark (mark : Char) (h : Text.isDigit mark = true → mark.isDigit = true) :
      Restricts Char.isDigit Text.isDigit (single (· = mark)) (single (· = mark)) := by
    refine restricts_single fun c => ⟨fun hc => ⟨hc, ?_⟩, And.left⟩
    rwa [of_decide_eq_true hc]
  have hminus := hmark '-' (by decide)
  have hpoint := hmark '.' (by decide)
  have hrun := hleading.mul hdigit.kstar
  have hsign := ((hmark '+' (by decide)).add hminus).optional
  have hexponent := ((hmark 'e' (by decide)).mul (hsign.mul hrun)).optional
  have hfraction := (hpoint.mul hdigit.kstar).optional
  have hwhole := (hmark '0' (by decide)).add hrun
  exact (hminus.optional.mul (hwhole.mul (hfraction.mul hexponent))).add
    (hminus.optional.mul (hpoint.mul (hdigit.mul hdigit.kstar)))

end PrefixIntegral.Literal

namespace PrefixIntegral.Formula

open Literal (grammar)

/-- The words of the grammar are those read as literals whose digits are all plain. Only what is not
read as a literal is refused as one, and the fault names it. -/
theorem readLeaf_by_grammar (symbol word : Text) :
    (word ∈ grammar Char.isDigit ↔ (∃ value, Literal.read? word = some value) ∧
      ∀ c ∈ word, Text.isDigit c = true → c.isDigit = true) ∧
    ∀ fault, readLeaf symbol word = .error fault ↔ word ≠ symbol ∧ word ≠ Literal.piToken ∧
      Literal.read? word = none ∧ fault = .invalidLiteral word := by
  constructor
  · rw [Literal.restricts_grammar word, Literal.grammar_isDigit, ← Literal.numeral?_isSome,
      ← Option.isSome_iff_exists, Literal.read?, Option.isSome_map]
  · intro fault
    unfold readLeaf
    split
    · simp [*]
    · rename_i hsymbol
      split
      · simp [*]
      · rename_i hpi
        rw [and_iff_right hsymbol, and_iff_right hpi]
        cases Literal.read? word <;> simp [eq_comm]

/-- A digit of another script is read where the grammar has none: this word is read as thirteen. -/
theorem exists_read_outside_grammar : Literal.read? "1٣".toList = some 13 ∧
    Literal.read? "13".toList = some 13 ∧ "1٣".toList ∉ grammar Char.isDigit := by
  refine ⟨by decide +kernel, by decide +kernel, ?_⟩
  rw [Literal.restricts_grammar]
  rintro ⟨-, hplain⟩
  have hdigit := hplain '٣' (by decide) (by decide)
  exact absurd hdigit (by decide)

end PrefixIntegral.Formula
