import PrefixIntegral.Proofs.FirstFault
import PrefixIntegral.Tree.Printer
import PrefixIntegral.Tree.Symbolic

/-!
Recursions over arenas that nobody has checked. A place may lie outside the arena, an operand may be
missing, a kind may be none that is known, and operands may lead back to their operator: then a
recursion runs into a breach, or has no end. On the arena of a tree it ends without a breach, and
with what the tree gives.
-/

namespace PrefixIntegral

variable {α β ε : Type}

inductive Breach where
  | outside (place : Int)
  | missingOperand (place position : Nat)
  | kernel (fault : KernelFault)
  | noToken (kind : Kind)
  | unexpectedKind (kind : Kind)
  deriving DecidableEq, Repr

def EndsWith (runs : β → Prop) (result : β) : Prop := ∀ other, runs other ↔ other = result

def readAt (items : Array β) (place : Int) : Except Breach β :=
  if h : 0 ≤ place ∧ place < items.size then
    have : place.toNat < items.size := by omega
    .ok items[place.toNat]
  else .error (.outside place)

namespace Arena

mutual

/-- A recursion from a place. It reads the node there, recurs to its operands unless it is a leaf,
and combines what these give; a breach stops it. -/
inductive Recurs (arena : Arena α) (stop : Breach → ε)
    (combine : Nat → Node α → List β → Except ε β) : Int → Except ε β → Prop
  | outside {place : Int} {breach : Breach} : readAt arena place = .error breach →
      Recurs arena stop combine place (.error (stop breach))
  | node {place : Int} {node : Node α} {results : Except ε (List β)} :
      readAt arena place = .ok node →
      RecursAll arena stop combine (if node.kind.isLeaf then [] else node.children) results →
      Recurs arena stop combine place (results.bind (combine place.toNat node))

/-- A recursion to places from left to right, up to the first that stops it. -/
inductive RecursAll (arena : Arena α) (stop : Breach → ε)
    (combine : Nat → Node α → List β → Except ε β) : List Int → Except ε (List β) → Prop
  | nil : RecursAll arena stop combine [] (.ok [])
  | stopped {place : Int} {rest : List Int} {halt : ε} :
      Recurs arena stop combine place (.error halt) →
      RecursAll arena stop combine (place :: rest) (.error halt)
  | cons {place : Int} {rest : List Int} {value : β} {results : Except ε (List β)} :
      Recurs arena stop combine place (.ok value) → RecursAll arena stop combine rest results →
      RecursAll arena stop combine (place :: rest) (results.map (value :: ·))

end

end Arena

namespace Tree

variable [Scalar α] {t : Tree α} {stop : Breach → ε}
  {combine : Nat → Node α → List β → Except ε β}

theorem readAt_nodes {place : Nat} (hplace : place < t.size) :
    readAt t.nodes place = .ok (t.node place hplace) := by
  have hsize : t.size = t.nodes.size := rfl
  rw [readAt, dif_pos (by omega)]
  rfl

theorem recursAll_iff {γ : Type} {items : List γ} {placeOf : γ → Int} {results : γ → Except ε β}
    (h : ∀ item ∈ items, EndsWith (t.nodes.Recurs stop combine (placeOf item)) (results item)) :
    EndsWith (t.nodes.RecursAll stop combine (items.map placeOf))
      ((items.map results).mapM id) := by
  induction items with
  | nil =>
      intro other
      constructor
      · intro hother
        cases hother
        rfl
      · intro hother
        subst hother
        exact .nil
  | cons item rest ih =>
      intro other
      have hfirst := h item (by simp)
      have hrest := ih fun other hmem => h other (by simp [hmem])
      rw [List.map_cons, List.map_cons, List.mapM_cons]
      cases hresult : results item with
      | error halt =>
          rw [hresult] at hfirst
          constructor
          · intro hother
            cases hother with
            | stopped hstopped =>
                cases (hfirst _).1 hstopped
                rfl
            | cons hvalue _ => cases (hfirst _).1 hvalue
          · intro hother
            subst hother
            exact .stopped ((hfirst _).2 rfl)
      | ok value =>
          rw [hresult] at hfirst
          constructor
          · intro hother
            cases hother with
            | stopped hstopped => cases (hfirst _).1 hstopped
            | cons hvalue hmore =>
                cases (hfirst _).1 hvalue
                rw [(hrest _).1 hmore]
                cases (rest.map results).mapM id <;> rfl
          · intro hother
            have hmap : other = ((rest.map results).mapM id).map (value :: ·) := by
              rw [hother]
              cases (rest.map results).mapM id <;> rfl
            rw [hmap]
            exact .cons ((hfirst _).2 rfl) ((hrest _).2 rfl)

theorem children_of_isLeaf {i : Nat} (hi : i < t.size) :
    (if (t.node i hi).kind.isLeaf then [] else (t.node i hi).children) =
      (t.node i hi).children := by
  split
  · rename_i hleaf
    rcases t.node_cases hi with ⟨op, hkind, -⟩ | ⟨-, hchildren⟩
    · rw [hkind] at hleaf
      cases hleaf
    · exact hchildren.symm
  · rfl

theorem recurs_iff {i : Nat} (hi : i < t.size) :
    EndsWith (t.nodes.Recurs stop combine i)
      (t.foldFrom (fun place node results => (results.mapM id).bind (combine place node)) i
        hi) := by
  induction i, hi using place_induction with
  | node i hi ih =>
      intro other
      have hchildren : EndsWith
          (t.nodes.RecursAll stop combine ((t.node i hi).children.attach.map Subtype.val))
          ((t.operands (fun place node results => (results.mapM id).bind (combine place node)) i
            hi).mapM id) := by
        refine recursAll_iff ?_
        intro child _
        have hchild := ih child.val child.property
        have hplace := Arena.validate_children t.valid hi child.val child.property
        rwa [Int.toNat_of_nonneg (by omega)] at hchild
      rw [List.attach_map_subtype_val] at hchildren
      rw [foldFrom_eq]
      constructor
      · intro hother
        cases hother with
        | outside hbreach =>
            rw [readAt_nodes hi] at hbreach
            cases hbreach
        | node hread hresults =>
            rw [readAt_nodes hi] at hread
            cases hread
            rw [children_of_isLeaf] at hresults
            rw [(hchildren _).1 hresults]
            rfl
      · intro hother
        subst hother
        refine .node (readAt_nodes hi) ?_
        rw [children_of_isLeaf]
        exact (hchildren _).2 rfl

/-- What operands give may be changed before or after a fold, if no node of the tree tells the
difference. -/
theorem foldFrom_map {γ δ : Type} {f : Nat → Node α → List γ → γ} {g : Nat → Node α → List δ → δ}
    (change : γ → δ)
    (h : ∀ i hi (results : List γ), results.length = (t.node i hi).children.length →
      g i (t.node i hi) (results.map change) = change (f i (t.node i hi) results))
    {i : Nat} (hi : i < t.size) : t.foldFrom g i hi = change (t.foldFrom f i hi) := by
  induction i, hi using place_induction with
  | node i hi ih =>
      have hoperands : t.operands g i hi = (t.operands f i hi).map change := by
        rw [operands, operands, List.map_map]
        refine List.map_congr_left ?_
        intro child _
        exact ih child.val child.property
      rw [foldFrom_eq, foldFrom_eq, hoperands]
      exact h i hi _ (t.length_operands f hi)

theorem recurs_iff_of_ok {f : Nat → Node α → List β → β}
    (h : ∀ i hi (values : List β), values.length = (t.node i hi).children.length →
      combine i (t.node i hi) values = .ok (f i (t.node i hi) values)) {i : Nat} (hi : i < t.size) :
    EndsWith (t.nodes.Recurs stop combine i) (.ok (t.foldFrom f i hi)) := by
  rw [← foldFrom_map Except.ok _ hi]
  · exact recurs_iff hi
  · intro i hi values hlength
    rw [mapM_id_eq_ok_iff.2 rfl]
    exact h i hi values hlength

end Tree

def operandAt (place : Nat) (values : List β) (position : Nat) : Except Breach β :=
  match values[position]? with
  | some value => .ok value
  | none => .error (.missingOperand place position)

inductive Halt where
  | breach (breach : Breach)
  | fault (fault : EvaluationFault)
  deriving DecidableEq, Repr

namespace Carrier

variable [Scalar α]

/-- Evaluates a node by its kind. Operands are taken by their position, whatever their number, and a
kind that no other branch knows is left to the functions of one operand. -/
def reduce (c : Carrier α β) (x : β) (place : Nat) (node : Node α) (values : List β) :
    Except Halt β :=
  let operand (position : Nat) := (operandAt place values position).mapError Halt.breach
  let kernel (result : Except KernelFault β) := result.mapError fun fault => .breach (.kernel fault)
  match node.kind with
  | .argument => .ok x
  | .constant => .ok (c.single node.value)
  | .operator .mul | .operator .add => kernel (c.variadic node.kind values)
  | .operator .div => do
    let divisor ← operand 1
    if c.divisorIsZero divisor then .error (.fault (.divisionByZero place))
    else do
      let dividend ← operand 0
      kernel (c.binary node.kind dividend divisor)
  | .operator .sub | .operator .pow => do
    let left ← operand 0
    let right ← operand 1
    kernel (c.binary node.kind left right)
  | .operator .sqrt => do
    let value ← operand 0
    if c.isNegative value then .error (.fault (.negativeSquareRoot place))
    else kernel (c.unary node.kind value)
  | .operator .log => do
    let value ← operand 0
    if c.isNegative value then .error (.fault (.negativeLogarithm place))
    else kernel (c.unary node.kind value)
  | _ => do
    let value ← operand 0
    kernel (c.unary node.kind value)

theorem reduce_eq_applyAt (c : Carrier α β) (x : β) (place : Nat) {node : Node α} {op : Operator}
    {values : List β} (hkind : node.kind = .operator op)
    (haccepts : op.arity.accepts values.length) :
    c.reduce x place node values = (c.applyAt place op values).mapError .fault := by
  unfold reduce
  rw [hkind]
  cases op with
  | mul | add => rfl
  | sub | pow =>
      obtain ⟨a, b, rfl⟩ := exists_pair_of_accepts haccepts
      rfl
  | sqr | sin | cos | tan | cot | exp =>
      obtain ⟨a, rfl⟩ := exists_single_of_accepts haccepts
      rfl
  | div =>
      obtain ⟨a, b, rfl⟩ := exists_pair_of_accepts haccepts
      show (if c.divisorIsZero b then _ else _) = _
      rw [applyAt]
      split <;> rfl
  | sqrt | log =>
      obtain ⟨a, rfl⟩ := exists_single_of_accepts haccepts
      show (if c.isNegative a then _ else _) = _
      rw [applyAt]
      split <;> rfl

end Carrier

theorem Tree.recurs_reduce [Scalar α] (t : Tree α) (c : Carrier α β) (x : β) {i : Nat}
    (hi : i < t.size) : EndsWith (t.nodes.Recurs Halt.breach (c.reduce x) i)
      ((t.foldFrom (c.valueAt x) i hi).mapError Halt.fault) := by
  rw [← foldFrom_map (Except.mapError Halt.fault) _ hi]
  · exact recurs_iff hi
  · intro i hi results hlength
    rw [mapM_id_mapError]
    rcases t.node_cases hi with ⟨op, hkind, haccepts⟩ | ⟨hkind, hchildren⟩
    · rw [Carrier.valueAt, hkind]
      cases hvalues : results.mapM id with
      | error fault => rfl
      | ok values =>
          rw [mapM_id_eq_ok_iff.1 hvalues, List.length_map] at hlength
          exact Carrier.reduce_eq_applyAt c x i hkind (hlength ▸ haccepts)
    · rw [hchildren] at hlength
      obtain rfl := List.length_eq_zero_iff.1 hlength
      show c.reduce x i (t.node i hi) [] = _
      rcases hkind with hkind | hkind
      · simp only [Carrier.reduce, Carrier.valueAt, hkind]
        rfl
      · simp only [Carrier.reduce, Carrier.valueAt, hkind]
        rfl

namespace Arena

def writeNode (symbol : Text) (_ : Nat) (node : Node Float) (operands : List Text) :
    Except Breach Text :=
  match node.kind with
  | .argument | .constant => .ok (node.token symbol)
  | .operator op => .ok ('(' :: op.token ++ ' ' :: Tree.spaced operands ++ [')'])
  | .unknown _ => .error (.noToken node.kind)

def convertNode (name : Text) (place : Nat) (node : Node Float) (operands : List (Symbolic Float)) :
    Except Breach (Symbolic Float) :=
  let operand := operandAt place operands
  match node.kind with
  | .argument => .ok (.symbol name)
  | .constant => .ok (.ofConstant node.value)
  | .operator .mul => .ok (.product operands)
  | .operator .add => .ok (.sum operands)
  | .operator .div => do return .product [← operand 0, .power (← operand 1) (.integer (-1))]
  | .operator .sub => do return .sum [← operand 0, .product [.integer (-1), ← operand 1]]
  | .operator .pow => do return .power (← operand 0) (← operand 1)
  | .operator .sqr => do return .power (← operand 0) (.integer 2)
  | .operator .sqrt => do return .power (← operand 0) .half
  | .operator .sin => do return .apply .sin (← operand 0)
  | .operator .cos => do return .apply .cos (← operand 0)
  | .operator .tan => do return .apply .tan (← operand 0)
  | .operator .cot => do return .apply .cot (← operand 0)
  | .operator .exp => do return .apply .exp (← operand 0)
  | .operator .log => do return .apply .log (← operand 0)
  | .unknown _ => .error (.unexpectedKind node.kind)

end Arena

namespace Tree

theorem recurs_write (t : Tree Float) : EndsWith
    (t.nodes.Recurs id (Arena.writeNode t.symbol) 0) (.ok t.write) := by
  refine recurs_iff_of_ok ?_ t.size_pos
  intro i hi operands _
  rcases t.node_cases hi with ⟨op, hkind, -⟩ | ⟨hkind | hkind, -⟩
  · simp [Arena.writeNode, writeNode, hkind, Kind.isLeaf, Node.token]
  · simp [Arena.writeNode, writeNode, hkind, Kind.isLeaf]
  · simp [Arena.writeNode, writeNode, hkind, Kind.isLeaf]

def symbolicAt (t : Tree Float) (i : Nat) (hi : i < t.size) : Symbolic Float :=
  t.foldFrom (fun _ node operands => Symbolic.ofNode t.symbol node operands) i hi

theorem recurs_convert (t : Tree Float) {i : Nat} (hi : i < t.size) : EndsWith
    (t.nodes.Recurs id (Arena.convertNode t.symbol) i) (.ok (t.symbolicAt i hi)) := by
  refine recurs_iff_of_ok ?_ hi
  intro i hi operands hlength
  rcases t.node_cases hi with ⟨op, hkind, haccepts⟩ | ⟨hkind | hkind, -⟩
  · rw [← hlength] at haccepts
    unfold Arena.convertNode Symbolic.ofNode
    rw [hkind]
    cases op with
    | mul | add => rfl
    | div | sub | pow =>
        obtain ⟨a, b, rfl⟩ := Carrier.exists_pair_of_accepts haccepts
        rfl
    | sqr | sqrt | sin | cos | tan | cot | exp | log =>
        obtain ⟨a, rfl⟩ := Carrier.exists_single_of_accepts haccepts
        rfl
  · simp [Arena.convertNode, Symbolic.ofNode, hkind]
  · simp [Arena.convertNode, Symbolic.ofNode, hkind]

end Tree

end PrefixIntegral
