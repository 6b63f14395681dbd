import PrefixIntegral.Formula.Operand
import PrefixIntegral.Proofs.Balance
import PrefixIntegral.Proofs.Pattern
import PrefixIntegral.Proofs.Term

/-!
The grammar of formulas, stated on texts alone. A derivation gives a phrase: the operators and words
of a formula without the blanks between them.
-/

namespace PrefixIntegral

abbrev Phrase := Term Text

namespace Grammar

/-- Characters that are neither blanks nor parentheses, one at least. -/
def IsWord (word : Text) : Prop :=
  word ≠ [] ∧ ∀ c ∈ word, Text.isBlank c = false ∧ c ≠ '(' ∧ c ≠ ')'

/-- A word that may be an operand: the symbol of the variable, the word for the circle constant, or
a literal. -/
def IsToken (symbol word : Text) : Prop :=
  IsWord word ∧ (word = symbol ∨ word = Literal.piToken ∨ word ∈ Literal.pattern)

mutual

/-- A parenthesized operator before as many operands as it takes. -/
inductive IsGroup (symbol : Text) : Text → Phrase → Prop
  | intro {lead inner tail : Text} {op : Operator} {operands : List Phrase} :
      Text.isAllBlank lead → IsOperands symbol inner operands → Text.isAllBlank tail →
      op.arity.accepts operands.length →
      IsGroup symbol ('(' :: (lead ++ op.token ++ inner ++ tail) ++ [')']) (.apply op operands)

inductive IsOperand (symbol : Text) : Text → Phrase → Prop
  | group {text : Text} {phrase : Phrase} : IsGroup symbol text phrase →
      IsOperand symbol text phrase
  | token {word : Text} : IsToken symbol word → IsOperand symbol word (.leaf word)

inductive IsOperands (symbol : Text) : Text → List Phrase → Prop
  | nil : IsOperands symbol [] []
  | cons {gap text rest : Text} {phrase : Phrase} {others : List Phrase} : gap ≠ [] →
      Text.isAllBlank gap → IsOperand symbol text phrase → IsOperands symbol rest others →
      IsOperands symbol (gap ++ text ++ rest) (phrase :: others)

end

/-- One group with nothing but blanks around it. -/
def IsFormula (symbol formula : Text) (phrase : Phrase) : Prop :=
  ∃ before group after, Text.isAllBlank before ∧ IsGroup symbol group phrase ∧
    Text.isAllBlank after ∧ formula = before ++ group ++ after

/-- What a word of a phrase stands for. The variable goes before the circle constant, and that
before literals. -/
def meaning (symbol word : Text) : Leaf Float :=
  if word = symbol then .argument
  else if word = Literal.piToken then .constant Literal.pi
  else .constant ((Literal.read? word).getD 0)

theorem ne_parenthesis_of_isBlank {c : Char} (h : Text.isBlank c = true) : c ≠ '(' ∧ c ≠ ')' := by
  refine ⟨?_, ?_⟩ <;> rintro rfl <;> revert h <;> decide

theorem balanced_of_isAllBlank {t : Text} (h : Text.isAllBlank t) : Text.Balanced t :=
  .of_plain fun c hc => ne_parenthesis_of_isBlank (List.all_eq_true.1 h c hc)

theorem IsWord.of_all {word : Text} (hne : word ≠ [])
    (h : word.all (fun c => !Text.isBlank c && c != '(' && c != ')') = true) : IsWord word := by
  refine ⟨hne, ?_⟩
  intro c hc
  simpa [and_assoc] using List.all_eq_true.1 h c hc

theorem isWord_token (op : Operator) : IsWord op.token := by
  cases op <;> exact .of_all (by simp [Operator.token]) (by decide)

theorem isWord_piToken : IsWord Literal.piToken := .of_all (by decide) (by decide)

theorem isWord_of_mem_pattern {word : Text} (h : word ∈ Literal.pattern) : IsWord word := by
  refine ⟨?_, fun c hc => ?_⟩
  · rintro rfl
    have hread := Literal.numeral?_isSome.2 h
    cases hread
  · have hchar := Literal.within_pattern word h c hc
    simp only [Literal.isLiteralChar, Bool.or_eq_true, beq_iff_eq] at hchar
    rcases hchar with (((hdigit | rfl) | rfl) | rfl) | rfl
    · refine ⟨Text.isBlank_of_isDigit hdigit, ?_, ?_⟩ <;> rintro rfl <;> revert hdigit <;> decide
    all_goals decide

theorem IsWord.balanced {word : Text} (h : IsWord word) : Text.Balanced word :=
  .of_plain fun c hc => (h.2 c hc).2

theorem IsOperands.exists_of_mem {symbol inner : Text} {operands : List Phrase} {phrase : Phrase}
    (h : IsOperands symbol inner operands) (hmem : phrase ∈ operands) :
    ∃ text, IsOperand symbol text phrase := by
  induction operands generalizing inner with
  | nil => cases hmem
  | cons first others ih =>
      cases h with
      | cons _ _ hfirst hothers =>
          rcases List.mem_cons.1 hmem with rfl | hmem
          · exact ⟨_, hfirst⟩
          · exact ih hothers hmem

theorem balanced_body {symbol lead inner tail : Text} {op : Operator} {operands : List Phrase}
    (ih : ∀ phrase ∈ operands, ∀ {text}, IsOperand symbol text phrase → Text.Balanced text)
    (hlead : Text.isAllBlank lead) (hinner : IsOperands symbol inner operands)
    (htail : Text.isAllBlank tail) : Text.Balanced (lead ++ op.token ++ inner ++ tail) := by
  have hoperands : Text.Balanced inner := by
    clear hlead htail
    induction operands generalizing inner with
    | nil =>
        cases hinner
        exact Text.balanced_nil
    | cons phrase others hothers =>
        cases hinner with
        | cons _ hgap htext hrest =>
            exact ((balanced_of_isAllBlank hgap).append (ih phrase (by simp) htext)).append
              (hothers (fun p hp => ih p (by simp [hp])) hrest)
  exact (((balanced_of_isAllBlank hlead).append (isWord_token op).balanced).append hoperands).append
    (balanced_of_isAllBlank htail)

theorem IsOperand.balanced {symbol text : Text} {phrase : Phrase}
    (h : IsOperand symbol text phrase) : Text.Balanced text := by
  induction phrase using Term.induction generalizing text with
  | leaf word =>
      cases h with
      | group h => cases h
      | token h => exact h.1.balanced
  | apply op operands ih =>
      cases h with
      | group h =>
          cases h with
          | intro hlead hinner htail _ => exact (balanced_body ih hlead hinner htail).group

theorem isFormula_of_isOperand {symbol text : Text} {op : Operator} {operands : List Phrase}
    (h : IsOperand symbol text (.apply op operands)) :
    IsFormula symbol text (.apply op operands) := by
  cases h with
  | group h => exact ⟨[], text, [], rfl, h, rfl, by simp⟩

theorem IsOperand.fits {symbol text : Text} {phrase : Phrase} (h : IsOperand symbol text phrase) :
    phrase.Fits fun _ => True := by
  induction phrase using Term.induction generalizing text with
  | leaf word => exact .leaf trivial
  | apply op operands ih =>
      cases h with
      | group h =>
          cases h with
          | intro _ hoperands _ haccepts =>
              refine .apply haccepts ?_
              intro phrase hmem
              obtain ⟨text, htext⟩ := hoperands.exists_of_mem hmem
              exact ih phrase hmem htext

end Grammar

end PrefixIntegral
