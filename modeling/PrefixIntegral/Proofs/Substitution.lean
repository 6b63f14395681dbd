import PrefixIntegral.Proofs.Grids
import PrefixIntegral.Proofs.Reread
import PrefixIntegral.Proofs.Structural
import PrefixIntegral.Tree.Traversal

namespace PrefixIntegral

variable {α : Type} [Scalar α]

def Node.substitute (value : α) (node : Node α) : Node α :=
  if node.kind = .argument then .constant value else node

def Leaf.substitute (value : α) : Leaf α → Leaf α
  | argument => constant value
  | constant other => constant other

theorem Node.plain_substitute (value : α) (node : Node α) :
    (node.substitute value).plain = node.plain.substitute value := by
  obtain ⟨kind, other, children⟩ := node
  cases kind <;> rfl

omit [Scalar α] in
theorem Node.kind_substitute_ne (value : α) (node : Node α) :
    (node.substitute value).kind ≠ .argument := by
  unfold substitute
  split
  · nofun
  · assumption

/-- The value of a term at a point is that of the term with the point in place of its variable,
wherever this is evaluated. -/
theorem Term.evaluateFrom_substitute (value x : α) (t : Term (Leaf α)) (base : Nat) :
    (Term.map (Leaf.substitute value) t).evaluateFrom x base = t.evaluateFrom value base := by
  induction t generalizing base with
  | leaf leaf => cases leaf <;> rfl
  | apply op operands ih =>
      rw [map_apply, evaluateFrom, evaluateFrom]
      congr 1
      generalize base + 1 = base
      induction operands generalizing base with
      | nil => rfl
      | cons t rest hrest =>
          rw [List.map_cons, evaluateAllFrom, evaluateAllFrom, ih t (by simp), size_map,
            hrest fun u hu => ih u (by simp [hu])]

theorem Arena.LaysOut.substitute {arena : Arena α} {t : Term (Leaf α)} (h : arena.LaysOut t)
    {value : α} (hvalue : Scalar.isNaN value = false) :
    LaysOut (arena.map (Node.substitute value)) (Term.map (Leaf.substitute value) t) := by
  have hleaf : ∀ leaf : Leaf α, leaf.IsNumber → (leaf.substitute value).IsNumber := by
    intro leaf hleaf
    cases leaf with
    | argument => exact hvalue
    | constant other => exact hleaf
  have hnode : ∀ leaf : Leaf α, leaf.node.substitute value = (leaf.substitute value).node := by
    intro leaf
    cases leaf <;> rfl
  refine ⟨h.1.map hleaf, ?_⟩
  rw [Array.toList_map, List.map_map, ← Term.map_nodes hnode (fun _ _ => rfl), ← h.2, List.map_map]
  exact List.map_congr_left fun node _ => node.plain_substitute value

namespace Tree

variable {t : Tree α}

theorem evaluate_eq {term : Term (Leaf α)} (h : t.nodes.LaysOut term) (x : α) :
    t.evaluate x = term.evaluateFrom x 0 := by
  have hevaluate := foldAt?_evaluateFrom (x := x) (begins_zero h.2)
  rw [foldAt?, dif_pos t.size_pos] at hevaluate
  exact Option.some.inj hevaluate

/-- The tree has this outcome at every point, and over every grid has it as often as there are
points. -/
def Constantly (t : Tree α) (result : Except EvaluationFault α) : Prop :=
  (∀ x, t.evaluate x = result) ∧ ∀ points : Grid α, t.evaluateMany points =
    result.map fun value => ⟨points.shape, List.replicate points.values.length value⟩

theorem not_variesAt (h : t.usesVariable = false) (i : Nat) : ¬t.VariesAt i := by
  intro hvaries
  induction hvaries with
  | argument hi hkind =>
      exact List.any_eq_false.1 h _ (Array.getElem_mem_toList hi) (decide_eq_true hkind)
  | operand _ _ _ ih => exact ih

theorem eq_of_map_eq {ε β γ : Type} {f : β → γ} (hf : ∀ v w, f v = f w → v = w)
    {first second : Except ε β} (h : first.map f = second.map f) : first = second := by
  cases second with
  | error fault => exact map_eq_error_iff.1 h
  | ok value =>
      obtain ⟨found, hfound, heq⟩ := map_eq_ok_iff.1 h
      rw [hfound, hf found value heq]

theorem constantly_evaluate (h : t.usesVariable = false) (x : α) : t.Constantly (t.evaluate x) := by
  have hlanes (v : Lanes α) (y : α) :
      t.evaluateOn Carrier.lanes v = (t.evaluate y).map Lanes.uniform :=
    foldFrom_uniform v y t.size_pos (not_variesAt h 0)
  constructor
  · intro y
    have hmap := (hlanes (.uniform x) y).symm.trans (hlanes (.uniform x) x)
    exact eq_of_map_eq (fun _ _ => Lanes.uniform.inj) hmap
  · intro points
    rw [evaluateMany, hlanes points.lanes x]
    cases t.evaluate x <;> rfl

/-- Where a tree has a number in place of the variable of another, it always has the outcome that
this has at the number. -/
theorem constantly_of_substitute {s t : Tree α} {value : α}
    (hnodes : s.nodes.toList.map Node.plain =
      (t.nodes.toList.map (Node.substitute value)).map Node.plain)
    (hvalue : Scalar.isNaN value = false) : s.Constantly (t.evaluate value) := by
  obtain ⟨term, hterm⟩ := t.exists_laysOut
  obtain ⟨hfits, hlayout⟩ := hterm.substitute hvalue
  have hsterm : s.nodes.LaysOut (Term.map (Leaf.substitute value) term) := by
    refine ⟨hfits, ?_⟩
    rw [hnodes, ← hlayout, Array.toList_map]
  have hnone : s.usesVariable = false := by
    refine List.any_eq_false.2 ?_
    intro node hmem hargument
    have hplain := List.mem_map_of_mem (f := Node.plain) hmem
    rw [hnodes, List.map_map] at hplain
    obtain ⟨other, -, heq⟩ := List.mem_map.1 hplain
    apply other.kind_substitute_ne value
    rw [← Node.kind_plain, show (other.substitute value).plain = node.plain from heq,
      Node.kind_plain]
    exact of_decide_eq_true hargument
  have houtcome : s.evaluate value = t.evaluate value := by
    rw [evaluate_eq hsterm, evaluate_eq hterm, Term.evaluateFrom_substitute]
  rw [← houtcome]
  exact constantly_evaluate hnone value

end Tree

theorem Node.token_of_constant {symbol : Text} {node : Node Float}
    (hkind : node.kind = .constant) :
    node.token symbol = (Node.constant node.value).token symbol := by
  unfold token
  rw [hkind]
  rfl

namespace Formula

open Grammar (IsOperand IsToken meaning)

theorem exists_laysOut_of_read {formula symbol : Text} {t : Tree Float}
    (h : read formula symbol = .ok t) :
    ∃ op operands, t.nodes.LaysOut (.apply op operands) := by
  obtain ⟨phrase, ⟨_, text, _, -, hgroup, -, -⟩, -, -, hnodes⟩ := read_iff.1 h
  have hoperand : IsOperand symbol text phrase := .group hgroup
  have hlays : t.nodes.LaysOut (Term.map (meaning symbol) phrase) := by
    refine ⟨hoperand.fits.map fun word _ => isNumber_meaning symbol word, ?_⟩
    rw [hnodes, Grammar.map_plain_nodes]
  cases hgroup with
  | intro =>
      rw [Term.map_apply] at hlays
      exact ⟨_, _, hlays⟩

/-- A number may be put in place of the variable of a tree that has been read. The tree that this
makes has at every point, and over every grid, the outcome that the first tree has at the number.
The same is true of what is read from its canonical formula, if neither the number nor any constant
goes by the name of the variable. -/
theorem substitution_keeps_outcome {formula symbol : Text} {t : Tree Float}
    (hread : read formula symbol = .ok t) {c : Float} (hc : c.isNaN = false) :
    ∃ s, Tree.ofNodes (t.nodes.map (Node.substitute c)) symbol none = .ok s ∧
      s.Constantly (t.evaluate c) ∧
      ((∀ value ∈ c :: t.constants, (Node.constant value).token symbol ≠ symbol) →
        ∃ r, read s.write symbol = .ok r ∧ r.Constantly (t.evaluate c)) := by
  obtain ⟨op, operands, hlays⟩ := exists_laysOut_of_read hread
  have hsubstitute := hlays.substitute hc
  let s : Tree Float :=
    ⟨t.nodes.map (Node.substitute c), symbol, none, Arena.validate_of_laysOut hsubstitute⟩
  have hnodes : s.nodes.toList = t.nodes.toList.map (Node.substitute c) := Array.toList_map
  refine ⟨s, ofNodes_iff.2 ⟨rfl, rfl, rfl⟩, ?_, ?_⟩
  · exact Tree.constantly_of_substitute (congrArg _ hnodes) hc
  · intro htokens
    have hwords : (Term.map (Leaf.substitute c) (.apply op operands)).Fits
        fun leaf => IsToken symbol (leaf.word symbol) := by
      refine hlays.1.map ?_
      intro leaf hleaf
      cases leaf with
      | argument => exact Leaf.isToken_word_constant symbol hc
      | constant value => exact Leaf.isToken_word_constant symbol hleaf
    have hconstants : ∀ node ∈ s.nodes.toList, node.kind = .constant →
        node.token symbol ≠ symbol := by
      intro node hmem hkind
      rw [hnodes] at hmem
      obtain ⟨other, hother, rfl⟩ := List.mem_map.1 hmem
      by_cases hargument : other.kind = .argument
      · rw [Node.substitute, if_pos hargument]
        exact htokens c (by simp)
      · rw [Node.substitute, if_neg hargument] at hkind ⊢
        rw [Node.token_of_constant hkind]
        exact htokens _ (List.mem_cons_of_mem c (Tree.mem_constants hother hkind))
    have hlayout := hsubstitute.2
    rw [Term.map_apply] at hlayout hwords
    obtain ⟨r, hreread, -, hrnodes⟩ := Tree.exists_read_of_fits (t := s) hlayout hwords
    refine ⟨r, hreread, Tree.constantly_of_substitute ?_ hc⟩
    rw [hrnodes, ← hnodes, List.map_map]
    refine List.map_congr_left ?_
    intro node hmem
    obtain ⟨place, hplace⟩ := Arena.checkNode_of_mem (Arena.validate_checkNodes s.valid) hmem
    rw [Function.comp_apply, Node.reread_eq_plain hplace (hconstants node hmem), Node.plain_plain]

theorem readNodes_root : readNodes "(+ (sqrt x) 1)".toList "x".toList =
    .ok [.operator .add [1, 3], .operator .sqrt [2], .argument, .constant 1] := by decide +kernel

/-- The root of the negative zero is refused, wherever the negative zero comes from; that of four has
a value. -/
theorem substitution_keeps_root : ∃ t, read "(+ (sqrt x) 1)".toList "x".toList = .ok t ∧
    (t.evaluate (-0) = .error (.negativeSquareRoot 1) ∧ ∃ s r,
      Tree.ofNodes (t.nodes.map (Node.substitute (-0))) "x".toList none = .ok s ∧
      s.Constantly (.error (.negativeSquareRoot 1)) ∧
      read s.write "x".toList = .ok r ∧ r.Constantly (.error (.negativeSquareRoot 1))) ∧
    t.evaluate 4 = .ok 3 ∧ ∃ s r,
      Tree.ofNodes (t.nodes.map (Node.substitute 4)) "x".toList none = .ok s ∧
      s.Constantly (.ok 3) ∧ read s.write "x".toList = .ok r ∧ r.Constantly (.ok 3) := by
  have hread := read_eq_treeOfNodes readNodes_root
  have hconstants : (treeOfNodes readNodes_root).constants = [1] := rfl
  refine ⟨_, hread, ?_, ?_⟩
  · have hrefused : (treeOfNodes readNodes_root).evaluate (-0) =
        .error (.negativeSquareRoot 1) := by decide +kernel
    have htokens : ∀ value ∈ (-0 : Float) :: (treeOfNodes readNodes_root).constants,
        (Node.constant value).token "x".toList ≠ "x".toList := by
      rw [hconstants, List.forall_mem_cons, List.forall_mem_singleton]
      decide +kernel
    have hnumber : Float.isNaN (-0) = false := by decide
    obtain ⟨s, hs, hconstantly, hagain⟩ := substitution_keeps_outcome hread hnumber
    obtain ⟨r, hr, hrconstantly⟩ := hagain htokens
    rw [hrefused] at hconstantly hrconstantly
    exact ⟨hrefused, s, r, hs, hconstantly, hr, hrconstantly⟩
  · have hvalue : (treeOfNodes readNodes_root).evaluate 4 = .ok 3 := by decide +kernel
    have htokens : ∀ value ∈ (4 : Float) :: (treeOfNodes readNodes_root).constants,
        (Node.constant value).token "x".toList ≠ "x".toList := by
      rw [hconstants, List.forall_mem_cons, List.forall_mem_singleton]
      decide +kernel
    have hnumber : Float.isNaN 4 = false := by decide +kernel
    obtain ⟨s, hs, hconstantly, hagain⟩ := substitution_keeps_outcome hread hnumber
    obtain ⟨r, hr, hrconstantly⟩ := hagain htokens
    rw [hvalue] at hconstantly hrconstantly
    exact ⟨hvalue, s, r, hs, hconstantly, hr, hrconstantly⟩

end Formula

end PrefixIntegral
