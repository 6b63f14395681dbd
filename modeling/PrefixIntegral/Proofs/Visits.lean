import PrefixIntegral.Proofs.Breaches
import PrefixIntegral.Proofs.Subterms
import PrefixIntegral.Tree.Traversal

/-!
Walks over arenas that nobody has checked, and what the checks of a tree buy: a walk from any of its
places ends, stays inside the arena, and gives what the tree gives; and no evaluation ends otherwise
than with a value or with the fault of an operator that looks at its operands.
-/

namespace PrefixIntegral

open Term (nodesOfAll starts sizeOfAll)

variable {α β : Type}

namespace Arena

/-! ## Depths in one sweep -/

def deepen (arena : Arena α) (depths : Array Nat) (place : Nat) : Except Breach (Array Nat) := do
  let node ← readAt arena place
  if node.children.isEmpty then return depths
  else
    let below ← node.children.mapM (readAt depths ·)
    return depths.setIfInBounds place (Tree.depthOver below)

/-- The depth of the subtree at a root, with the depths of all nodes from the last back to it. -/
def sweepDepths (arena : Arena α) (root : Nat) : Except Breach Nat := do
  let places := (List.range' root (arena.size - root)).reverse
  let depths ← places.foldlM arena.deepen (Array.replicate arena.size 1)
  readAt depths root

/-! ## Descents and walks -/

/-- A descent along last operands, to the place after the leaf that it meets. -/
inductive DescendsTo (arena : Arena α) : Int → Except Breach Nat → Prop
  | outside {place : Int} {breach : Breach} : readAt arena place = .error breach →
      DescendsTo arena place (.error breach)
  | leaf {place : Int} {node : Node α} : readAt arena place = .ok node →
      node.children.getLast? = none → DescendsTo arena place (.ok (place.toNat + 1))
  | down {place child : Int} {node : Node α} {result : Except Breach Nat} :
      readAt arena place = .ok node → node.children.getLast? = some child →
      DescendsTo arena child result → DescendsTo arena place result

/-- A walk over the places that wait, and over those that queue up on the way. -/
inductive Explores (arena : Arena α) (order : VisitOrder) :
    List Int → Except Breach (List Int) → Prop
  | done : Explores arena order [] (.ok [])
  | outside {place : Int} {pending : List Int} {breach : Breach} :
      readAt arena place = .error breach → Explores arena order (place :: pending) (.error breach)
  | visit {place : Int} {pending : List Int} {node : Node α} {places : Except Breach (List Int)} :
      readAt arena place = .ok node →
      Explores arena order (order.enqueue node.children pending) places →
      Explores arena order (place :: pending) (places.map (place :: ·))

end Arena

namespace Tree

variable [Scalar α] {t : Tree α}

/-! ## Depths of a tree -/

/-- The depths from a place on are those of the subtrees there, and the others have not been set. -/
def Swept (t : Tree α) (first : Nat) (depths : Array Nat) : Prop :=
  depths.size = t.size ∧
    ∀ i (hi : i < t.size), depths[i]? = some (if i < first then 1 else t.depthAt i hi)

theorem readAt_of_swept {first i : Nat} {depths : Array Nat} (h : t.Swept first depths)
    (hi : i < t.size) (hfirst : first ≤ i) : readAt depths i = .ok (t.depthAt i hi) := by
  have hsize := h.1
  have hdepth := h.2 i hi
  rw [if_neg (by omega)] at hdepth
  obtain ⟨hlt, hdepth⟩ := Array.getElem?_eq_some_iff.1 hdepth
  rw [readAt, dif_pos (by omega)]
  exact congrArg _ hdepth

theorem depthAt_eq {i : Nat} (hi : i < t.size) : t.depthAt i hi =
    depthOver (t.operands (fun _ _ depths => depthOver depths) i hi) := foldFrom_eq t _ hi

theorem mapM_readAt_of_swept {place : Nat} {depths : Array Nat} (hplace : place < t.size)
    (h : t.Swept (place + 1) depths) : (t.node place hplace).children.mapM (readAt depths ·) =
      .ok (t.operands (fun _ _ depths => depthOver depths) place hplace) := by
  rw [mapM_eq_ok_iff, operands, List.map_map,
    ← List.attach_map_val (l := (t.node place hplace).children) (f := (readAt depths ·))]
  refine List.map_congr_left ?_
  intro child _
  have hlater := t.lt_child hplace child.property
  have hread := readAt_of_swept h hlater.2 hlater.1
  rwa [Int.toNat_of_nonneg (by omega)] at hread

theorem exists_deepen {place : Nat} {depths : Array Nat} (hplace : place < t.size)
    (h : t.Swept (place + 1) depths) :
    ∃ depths', t.nodes.deepen depths place = .ok depths' ∧ t.Swept place depths' := by
  obtain ⟨hsize, hdepths⟩ := h
  rw [Arena.deepen, readAt_nodes hplace]
  by_cases hchildren : (t.node place hplace).children = []
  · -- A leaf keeps the depth that every place starts with.
    refine ⟨depths, ?_, hsize, ?_⟩
    · simp [hchildren, bind, Except.bind, pure, Except.pure]
    · intro i hi
      rw [hdepths i hi]
      by_cases hself : i = place
      · subst hself
        have hnone : t.operands (fun _ _ depths => depthOver depths) i hi = [] :=
          List.length_eq_zero_iff.1 (by rw [t.length_operands _ hi, hchildren]; rfl)
        rw [depthAt_eq hi, hnone, if_pos (by omega), if_neg (by omega)]
        rfl
      · simp only [show i < place + 1 ↔ i < place by omega]
  · refine ⟨depths.setIfInBounds place (t.depthAt place hplace), ?_, ?_, ?_⟩
    · have hbelow := mapM_readAt_of_swept hplace ⟨hsize, hdepths⟩
      simp [hchildren, hbelow, depthAt_eq hplace, bind, Except.bind, pure, Except.pure]
    · rw [Array.size_setIfInBounds, hsize]
    · intro i hi
      rw [Array.getElem?_setIfInBounds]
      by_cases hself : place = i
      · subst hself
        simp [hsize, hplace]
      · rw [if_neg hself, hdepths i hi]
        simp only [show i < place + 1 ↔ i < place by omega]

theorem exists_sweep {count : Nat} {depths : Array Nat} (first : Nat)
    (hcount : first + count = t.size) (h : t.Swept (first + count) depths) : ∃ depths',
      (List.range' first count).reverse.foldlM t.nodes.deepen depths = .ok depths' ∧
        t.Swept first depths' := by
  induction count generalizing first with
  | zero => exact ⟨depths, rfl, h⟩
  | succ count ih =>
      obtain ⟨later, hlater, hswept⟩ := ih (first + 1) (by omega)
        (by rwa [Nat.add_assoc, Nat.add_comm 1])
      obtain ⟨depths', hdeepen, hfirst⟩ := exists_deepen (by omega) hswept
      refine ⟨depths', ?_, hfirst⟩
      rw [List.range'_succ, List.reverse_cons, List.foldlM_append, hlater]
      simp [hdeepen, bind, Except.bind, pure, Except.pure]

/-- One sweep over the arena of a tree finds the depth of a subtree. -/
theorem sweepDepths_eq (t : Tree α) {i : Nat} (hi : i < t.size) :
    t.nodes.sweepDepths i = .ok (t.depthAt i hi) := by
  have hstart : t.Swept (i + (t.size - i)) (Array.replicate t.size 1) := by
    refine ⟨Array.size_replicate, ?_⟩
    intro j hj
    rw [Array.getElem?_replicate, if_pos hj, if_pos (by omega)]
  obtain ⟨depths, hsweep, hswept⟩ := exists_sweep i (by omega) hstart
  have hread := readAt_of_swept hswept hi (Nat.le_refl i)
  rw [Arena.sweepDepths, show t.nodes.size = t.size from rfl, hsweep]
  exact hread

/-! ## Last operands -/

theorem descendsTo_leaf_iff {i : Nat} (hi : i < t.size) {other : Except Breach Nat}
    (hlast : (t.node i hi).children.getLast? = none) :
    t.nodes.DescendsTo i other ↔ other = .ok (i + 1) := by
  have hread := readAt_nodes hi
  constructor
  · intro hother
    cases hother with
    | outside hbreach => cases hread.symm.trans hbreach
    | leaf _ _ => rfl
    | down hnode hchild _ =>
        cases hread.symm.trans hnode
        cases hlast.symm.trans hchild
  · intro hother
    subst hother
    exact .leaf hread hlast

theorem descendsTo_down_iff {i : Nat} (hi : i < t.size) {child : Int}
    {other : Except Breach Nat} (hlast : (t.node i hi).children.getLast? = some child) :
    t.nodes.DescendsTo i other ↔ t.nodes.DescendsTo child other := by
  have hread := readAt_nodes hi
  constructor
  · intro hother
    cases hother with
    | outside hbreach => cases hread.symm.trans hbreach
    | leaf hnode hnone =>
        cases hread.symm.trans hnode
        cases hlast.symm.trans hnone
    | down hnode hchild hdown =>
        cases hread.symm.trans hnode
        cases hlast.symm.trans hchild
        exact hdown
  · exact .down hread hlast

theorem descendsTo_subtreeEnd (t : Tree α) {i : Nat} (hi : i < t.size) :
    EndsWith (t.nodes.DescendsTo i) (.ok (t.subtreeEnd i hi)) := by
  induction i, hi using place_induction with
  | node i hi ih =>
      intro other
      rw [subtreeEnd]
      split
      · rename_i hlast
        exact descendsTo_leaf_iff hi hlast
      · rename_i child hlast
        have hmem := List.mem_of_getLast? hlast
        have hplace := Arena.validate_children t.valid hi child hmem
        have hchild := ih child hmem
        rw [Int.toNat_of_nonneg (by omega)] at hchild
        exact (descendsTo_down_iff hi hlast).trans (hchild other)

/-! ## Walks -/

def Holds (t : Tree α) (place : Int) (term : Term (Leaf α)) : Prop :=
  ∃ i : Nat, place = i ∧ t.Begins i term

theorem holds_starts {base : Nat} {operands : List (Term (Leaf α))}
    (h : nodesOfAll Leaf.node base operands <+: (t.nodes.toList.drop base).map Node.plain) :
    List.Forall₂ t.Holds (starts base operands) operands := by
  induction operands generalizing base with
  | nil => exact .nil
  | cons term rest ih =>
      obtain ⟨hfirst, hrest⟩ := begins_of_cons h
      exact .cons ⟨base, rfl, hfirst⟩ (ih hrest)

theorem exists_operands {i : Nat} {term : Term (Leaf α)} (h : t.Begins i term) :
    ∃ (hi : i < t.size) (operands : List (Term (Leaf α))),
      List.Forall₂ t.Holds (t.node i hi).children operands ∧
        term.size = sizeOfAll operands + 1 := by
  cases term with
  | leaf leaf =>
      obtain ⟨hi, hplain⟩ := h.node_leaf
      refine ⟨hi, [], ?_, rfl⟩
      rw [← Node.children_plain, hplain]
      cases leaf <;> exact .nil
  | apply op operands =>
      obtain ⟨hi, -, hchildren, hnodes⟩ := h.node_apply
      refine ⟨hi, operands, ?_, Term.size.eq_2 op operands⟩
      rw [hchildren]
      exact holds_starts hnodes

theorem exists_enqueue (order : VisitOrder) {children pending : List Int}
    {operands terms : List (Term (Leaf α))} (hchildren : List.Forall₂ t.Holds children operands)
    (hpending : List.Forall₂ t.Holds pending terms) :
    ∃ queue, List.Forall₂ t.Holds (order.enqueue children pending) queue ∧
      sizeOfAll queue = sizeOfAll operands + sizeOfAll terms := by
  cases order with
  | depthFirst =>
      exact ⟨operands ++ terms, List.rel_append hchildren hpending, Term.sizeOfAll_append _ _⟩
  | breadthFirst =>
      refine ⟨terms ++ operands, List.rel_append hpending hchildren, ?_⟩
      rw [Term.sizeOfAll_append, Nat.add_comm]

theorem explores_nil (order : VisitOrder) : EndsWith (t.nodes.Explores order []) (.ok []) := by
  intro other
  constructor
  · intro hother
    cases hother
    rfl
  · intro hother
    subst hother
    exact .done

theorem explores_cons {order : VisitOrder} {i : Nat} (hi : i < t.size) {pending : List Int}
    {result : List Int}
    (h : EndsWith (t.nodes.Explores order (order.enqueue (t.node i hi).children pending))
      (.ok result)) :
    EndsWith (t.nodes.Explores order ((i : Int) :: pending)) (.ok ((i : Int) :: result)) := by
  have hread := readAt_nodes hi
  intro other
  constructor
  · intro hother
    cases hother with
    | outside hbreach => cases hread.symm.trans hbreach
    | visit hnode hplaces =>
        cases hread.symm.trans hnode
        rw [(h _).1 hplaces]
        rfl
  · intro hother
    subst hother
    exact .visit hread ((h _).2 rfl)

theorem explores_visitFrom (order : VisitOrder) {steps : Nat} {pending : List Int}
    {terms : List (Term (Leaf α))} (hpending : List.Forall₂ t.Holds pending terms)
    (hsteps : sizeOfAll terms ≤ steps) :
    EndsWith (t.nodes.Explores order pending) (.ok (t.nodes.visitFrom order steps pending)) := by
  induction steps generalizing pending terms with
  | zero =>
      cases hpending with
      | nil => exact explores_nil order
      | @cons _ term _ _ _ _ =>
          have hpos := term.size_pos
          rw [sizeOfAll] at hsteps
          omega
  | succ steps ih =>
      cases hpending with
      | nil => exact explores_nil order
      | @cons place term pending terms hplace hpending =>
          -- The node is visited, and what queues up in its place is smaller by one.
          obtain ⟨i, rfl, hbegins⟩ := hplace
          obtain ⟨hi, operands, hoperands, hsize⟩ := exists_operands hbegins
          obtain ⟨queue, hqueue, hcount⟩ := exists_enqueue order hoperands hpending
          rw [sizeOfAll] at hsteps
          have hnode : t.nodes.toList[i]? = some (t.node i hi) := by
            rw [Array.getElem?_toList]
            exact Array.getElem?_eq_getElem hi
          rw [Arena.visitFrom, Arena.childrenAt_of_getElem? hnode]
          exact explores_cons hi (ih hqueue (by omega))

/-- A walk from a place of a tree ends, and lists the places that the tree visits. -/
theorem exists_visit (t : Tree α) (order : VisitOrder) {i : Nat} (hi : i < t.size) :
    ∃ places, t.visit order i = .ok places ∧
      EndsWith (t.nodes.Explores order [(i : Int)]) (.ok places) := by
  obtain ⟨term, hterm⟩ := exists_begins hi
  refine ⟨t.nodes.visitFrom order t.size [(i : Int)], ?_, ?_⟩
  · rw [visit, if_neg (by omega), if_neg (by omega)]
  · have hholds : List.Forall₂ t.Holds [(i : Int)] [term] := .cons ⟨i, rfl, hterm⟩ .nil
    have hsize := hterm.size_le
    apply explores_visitFrom order hholds
    rw [sizeOfAll, sizeOfAll]
    omega

/-! ## Faults of an evaluation -/

/-- A fault names an operator that looks at its operands, and says what this operator refuses. -/
def Blames (t : Tree α) : EvaluationFault → Prop
  | .divisionByZero node => ∃ hi, (t.node node hi).kind = .operator .div
  | .negativeSquareRoot node => ∃ hi, (t.node node hi).kind = .operator .sqrt
  | .negativeLogarithm node => ∃ hi, (t.node node hi).kind = .operator .log
  | .malformed _ => False

theorem Checks.blames {fault : EvaluationFault} {check : DomainCheck α}
    (h : t.Checks fault check) : t.Blames fault := by
  obtain ⟨hi, op, hkind, hcheck, hfault⟩ := h
  cases op with
  | div | sqrt | log =>
      cases hcheck
      rw [hfault]
      exact ⟨hi, hkind⟩
  | mul | add | sub | sqr | pow | sin | cos | tan | cot | exp => cases hcheck

theorem blames_of_evaluateOn {c : Carrier α β} {x : β} {fault : EvaluationFault}
    (h : t.evaluateOn c x = .error fault) : t.Blames fault := by
  have hfinds := t.finds_evaluateOn c x
  rw [h] at hfinds
  obtain ⟨check, hchecks, -⟩ := IsFirst.holds hfinds
  exact hchecks.blames

end Tree

/-- Whatever computes over the arena of a tree ends, and stays inside it. No place is read that the
arena does not have, no operand that its node does not have, no kernel or writer is given a kind
that it does not know. So evaluating at a point or at many gives a value, or the fault of a
quotient, a root or a logarithm; the texts, the symbolic expressions, the depths, the ends of
subtrees and the walks are there for every place. -/
theorem Tree.computations_end (t : Tree Float) :
    (∀ x : Float,
      EndsWith (t.nodes.Recurs Halt.breach (Carrier.point.reduce x) 0)
        ((t.evaluate x).mapError Halt.fault) ∧
      ∀ fault, t.evaluate x = .error fault → t.Blames fault) ∧
    (∀ points : Grid Float, ∃ result : Except EvaluationFault (Lanes Float),
      EndsWith (t.nodes.Recurs Halt.breach (Carrier.lanes.reduce points.lanes) 0)
        (result.mapError Halt.fault) ∧
      t.evaluateMany points = result.map points.fill ∧
      ∀ fault, t.evaluateMany points = .error fault → t.Blames fault) ∧
    EndsWith (t.nodes.Recurs id (Arena.writeNode t.symbol) 0) (.ok t.write) ∧
    t.symbolicAt 0 t.size_pos = t.toSymbolic ∧
    ∀ i (hi : i < t.size),
      EndsWith (t.nodes.Recurs id (Arena.convertNode t.symbol) i) (.ok (t.symbolicAt i hi)) ∧
      t.nodes.sweepDepths i = .ok (t.depthAt i hi) ∧
      EndsWith (t.nodes.DescendsTo i) (.ok (t.subtreeEnd i hi)) ∧
      ∀ order, ∃ places, t.visit order i = .ok places ∧
        EndsWith (t.nodes.Explores order [(i : Int)]) (.ok places) := by
  refine ⟨?_, ?_, t.recurs_write, rfl, ?_⟩
  · intro x
    exact ⟨t.recurs_reduce Carrier.point x t.size_pos, fun fault => blames_of_evaluateOn⟩
  · intro points
    refine ⟨t.evaluateOn Carrier.lanes points.lanes,
      t.recurs_reduce Carrier.lanes points.lanes t.size_pos, rfl, ?_⟩
    intro fault hfault
    exact blames_of_evaluateOn (map_eq_error_iff.1 hfault)
  · intro i hi
    exact ⟨t.recurs_convert hi, t.sweepDepths_eq hi, t.descendsTo_subtreeEnd hi,
      fun order => t.exists_visit order hi⟩

end PrefixIntegral
