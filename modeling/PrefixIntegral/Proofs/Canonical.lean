import PrefixIntegral.Proofs.Folds
import PrefixIntegral.Proofs.Formulas
import PrefixIntegral.Proofs.RoundTrip
import PrefixIntegral.Tree.Printer

namespace PrefixIntegral

open Grammar (IsWord IsToken IsOperand IsOperands IsFormula)

namespace Grammar

theorem map_plain_nodes (symbol : Text) (base : Nat) (phrase : Phrase) :
    (phrase.nodes (Formula.wordNode symbol) base).map Node.plain =
      Term.nodes Leaf.node base (Term.map (meaning symbol) phrase) :=
  Term.map_nodes (fun word => Leaf.plain_node (meaning symbol word)) (fun _ _ => rfl) base phrase

def groupText (op : Operator) (operands : List Text) : Text :=
  '(' :: op.token ++ ' ' :: Tree.spaced operands ++ [')']

def canonical : Phrase → Text := Term.fold id groupText

theorem isOperands_spaced {symbol : Text} {operands : List Phrase} (hne : operands ≠ [])
    (h : ∀ phrase ∈ operands, IsOperand symbol (canonical phrase) phrase) :
    IsOperands symbol (' ' :: Tree.spaced (operands.map canonical)) operands := by
  have hgap : Text.isAllBlank [' '] = true := by decide
  induction operands with
  | nil => exact absurd rfl hne
  | cons phrase rest ih =>
      have hphrase := h phrase (by simp)
      cases rest with
      | nil =>
          have hnone : IsOperands symbol [] [] := .nil
          simpa [Tree.spaced] using IsOperands.cons (by simp) hgap hphrase hnone
      | cons next others =>
          exact .cons (by simp) hgap hphrase (ih (by simp) fun p hp => h p (by simp [hp]))

theorem canonical_apply (op : Operator) (operands : List Phrase) :
    canonical (.apply op operands) = groupText op (operands.map canonical) :=
  Term.fold_apply _ _ op operands

theorem isOperand_canonical {symbol : Text} {phrase : Phrase} (h : phrase.Fits (IsToken symbol)) :
    IsOperand symbol (canonical phrase) phrase := by
  induction h with
  | leaf htoken => exact .token htoken
  | @apply op operands haccepts _ ih =>
      have hne : operands ≠ [] := by
        rintro rfl
        revert haccepts
        cases op <;> decide
      have hblank : Text.isAllBlank [] = true := rfl
      have hgroup := IsGroup.intro hblank (isOperands_spaced hne ih) hblank haccepts
      rw [canonical_apply]
      simpa [groupText] using IsOperand.group hgroup

end Grammar

namespace Literal

theorem write_mem_pattern {x : Float} (hx : x.isNaN = false) : write x ∈ pattern := by
  have hread := read?_write hx
  rw [read?, Option.map_eq_some_iff] at hread
  obtain ⟨numeral, hnumeral, -⟩ := hread
  rw [← numeral?_isSome, hnumeral]
  rfl

theorem write_ne {x : Float} (hx : x.isNaN = false) {word : Text} (hword : read? word = none) :
    write x ≠ word := by
  rintro rfl
  rw [read?_write hx] at hword
  cases hword

end Literal

namespace Leaf

def word (symbol : Text) (leaf : Leaf Float) : Text := leaf.node.token symbol

theorem word_constant (symbol : Text) (x : Float) :
    word symbol (.constant x) =
      if x == Literal.pi && symbol != Literal.piToken then Literal.piToken else Literal.write x :=
  rfl

theorem isToken_word_constant (symbol : Text) {x : Float} (hx : x.isNaN = false) :
    IsToken symbol (word symbol (.constant x)) := by
  rw [word_constant]
  split
  · exact ⟨Grammar.isWord_piToken, .inr (.inl rfl)⟩
  · have hmem := Literal.write_mem_pattern hx
    exact ⟨Grammar.isWord_of_mem_pattern hmem, .inr (.inr hmem)⟩

theorem isToken_word {symbol : Text} (hsymbol : IsWord symbol) {leaf : Leaf Float}
    (hleaf : leaf.IsNumber) : IsToken symbol (leaf.word symbol) := by
  cases leaf with
  | argument => exact ⟨hsymbol, .inl rfl⟩
  | constant x => exact isToken_word_constant symbol hleaf

/-- A word means the leaf that it stands for, unless it is that of a constant and the symbol too. -/
theorem meaning_word {symbol : Text} {leaf : Leaf Float} (hleaf : leaf.IsNumber)
    (hne : leaf ≠ .argument → leaf.word symbol ≠ symbol) :
    Grammar.meaning symbol (leaf.word symbol) = leaf := by
  cases leaf with
  | argument => exact if_pos rfl
  | constant x =>
      rw [Grammar.meaning, if_neg (hne nofun), word_constant]
      split
      · rename_i hpi
        rw [Bool.and_eq_true] at hpi
        rw [if_pos rfl, Binary64.eq_of_beq hpi.1 (by decide) (by decide)]
      · rw [if_neg (Literal.write_ne hleaf rfl), Literal.read?_write hleaf]
        rfl

end Leaf

end PrefixIntegral
