import PrefixIntegral.Proofs.Folds
import PrefixIntegral.Proofs.Validation

namespace PrefixIntegral

open Term (nodes nodesOfAll starts sizeOfAll)

variable {α β : Type} [Scalar α]

namespace Term

theorem exists_of_place_all {leafNode : β → Node α} {operands : List (Term β)} {place : Nat}
    (base : Nat)
    (h : ∀ t ∈ operands, ∀ {base}, base ≤ place → place < base + t.size →
      ∃ sub, nodes leafNode place sub <+: (nodes leafNode base t).drop (place - base))
    (hle : base ≤ place) (hlt : place < base + sizeOfAll operands) :
    ∃ sub, nodes leafNode place sub <+:
      (nodesOfAll leafNode base operands).drop (place - base) := by
  induction operands generalizing base with
  | nil =>
      rw [sizeOfAll] at hlt
      omega
  | cons t rest ih =>
      rw [sizeOfAll] at hlt
      rw [nodesOfAll]
      by_cases hfirst : place < base + t.size
      · obtain ⟨sub, hsub⟩ := h t (by simp) hle hfirst
        refine ⟨sub, hsub.trans ?_⟩
        rw [List.drop_append_of_le_length (by rw [length_nodes]; omega)]
        exact List.prefix_append _ _
      · obtain ⟨sub, hsub⟩ := ih (base + t.size) (fun u hu => h u (by simp [hu]))
          (by omega) (by omega)
        refine ⟨sub, ?_⟩
        have hdrop : place - base = (nodes leafNode base t).length + (place - (base + t.size)) := by
          rw [length_nodes]
          omega
        rwa [hdrop, List.drop_length_add_append]

theorem exists_of_place {leafNode : β → Node α} (t : Term β) {base place : Nat}
    (hle : base ≤ place) (hlt : place < base + t.size) :
    ∃ sub, nodes leafNode place sub <+: (nodes leafNode base t).drop (place - base) := by
  induction t generalizing base with
  | leaf content =>
      obtain rfl : place = base := by
        rw [size] at hlt
        omega
      exact ⟨.leaf content, by simp⟩
  | apply op operands ih =>
      by_cases hself : place = base
      · subst hself
        exact ⟨.apply op operands, by simp⟩
      · rw [size] at hlt
        obtain ⟨sub, hsub⟩ := exists_of_place_all (base + 1) ih (by omega) (by omega)
        refine ⟨sub, ?_⟩
        rwa [nodes, show place - base = place - (base + 1) + 1 by omega, List.drop_succ_cons]

end Term

namespace Tree

variable {t : Tree α} {place : Nat} {term : Term (Leaf α)}

theorem exists_laysOut (t : Tree α) : ∃ term, t.nodes.LaysOut term :=
  Arena.exists_term_of_validate t.valid

theorem exists_begins (hplace : place < t.size) : ∃ term, t.Begins place term := by
  obtain ⟨whole, -, hwhole⟩ := t.exists_laysOut
  have hsize : t.size = whole.size := by
    have hlength := congrArg List.length hwhole
    rwa [List.length_map, Array.length_toList, Term.length_nodes] at hlength
  have hterm : ∃ term, Term.nodes Leaf.node place term <+:
      (Term.nodes Leaf.node 0 whole).drop place :=
    Term.exists_of_place whole (Nat.zero_le place) (by omega)
  obtain ⟨term, hterm⟩ := hterm
  refine ⟨term, ?_⟩
  rwa [Begins, List.map_drop, hwhole]

theorem Begins.size_le (h : t.Begins place term) : place + term.size ≤ t.size := by
  have hpos := term.size_pos
  have hlength := h.length_le
  have hsize : t.nodes.toList.length = t.size := Array.length_toList
  rw [Term.length_nodes, List.length_map, List.length_drop, hsize] at hlength
  omega

end Tree

end PrefixIntegral
