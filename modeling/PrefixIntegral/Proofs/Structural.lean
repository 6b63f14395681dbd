import PrefixIntegral.Proofs.FirstFault
import PrefixIntegral.Proofs.Packing
import PrefixIntegral.Proofs.Subterms

namespace PrefixIntegral

open Term (nodesOfAll starts)

variable {α : Type} [Scalar α]

/-- What an operator makes of the values of its operands, from left to right. A sum starts from zero
and a product from one. The checks come first, and a fault names the place of the operator. -/
def Operator.compute (place : Nat) (op : Operator) (values : List α) : Except EvaluationFault α :=
  match op, values with
  | .mul, values => .ok (values.foldl (· * ·) (Scalar.ofInt 1))
  | .add, values => .ok (values.foldl (· + ·) (Scalar.ofInt 0))
  | .div, [a, b] =>
    if Scalar.isZeroDivisor b then .error (.divisionByZero place) else .ok (a / b)
  | .sub, [a, b] => .ok (a - b)
  | .pow, [a, b] => .ok (Scalar.power a b)
  | .sqr, [a] => .ok (Scalar.power a (Scalar.ofInt 2))
  | .sqrt, [a] =>
    if Scalar.isNegative a then .error (.negativeSquareRoot place) else .ok (Scalar.sqrt a)
  | .sin, [a] => .ok (Scalar.sin a)
  | .cos, [a] => .ok (Scalar.cos a)
  | .tan, [a] => .ok (Scalar.tan a)
  | .cot, [a] => .ok (Scalar.ofInt 1 / Scalar.tan a)
  | .exp, [a] => .ok (Scalar.exp a)
  | .log, [a] =>
    if Scalar.isNegative a then .error (.negativeLogarithm place) else .ok (Scalar.log a)
  | _, _ => .error (.malformed place)

theorem Operator.applyAt_eq_compute (place : Nat) (op : Operator) (values : List α) :
    Carrier.point.applyAt place op values = op.compute place values := by
  cases op with
  | mul | add => rfl
  | div | sub | sqr | sqrt | pow | sin | cos | tan | cot | exp | log =>
      match values with
      | [] | [_] | [_, _] | _ :: _ :: _ :: _ => rfl

namespace Leaf

def valueAt (x : α) : Leaf α → α
  | argument => x
  | constant value => value

theorem valueAt_eq {node : Node α} {leaf : Leaf α} (h : node.plain = leaf.node) (x : α)
    (place : Nat) : Carrier.point.valueAt x place node [] = .ok (leaf.valueAt x) := by
  have hkind := congrArg Node.kind h
  rw [Node.kind_plain] at hkind
  cases leaf with
  | argument => simp only [Carrier.valueAt, show node.kind = .argument from hkind, valueAt]
  | constant value =>
      have hconstant : node.kind = .constant := hkind
      rw [Node.plain_of_constant hconstant] at h
      simp only [Carrier.valueAt, h]
      rfl

end Leaf

namespace Term

mutual

def evaluateFrom (x : α) (base : Nat) : Term (Leaf α) → Except EvaluationFault α
  | .leaf content => .ok (content.valueAt x)
  | .apply op operands => do
    let values ← evaluateAllFrom x (base + 1) operands
    op.compute base values

def evaluateAllFrom (x : α) (base : Nat) : List (Term (Leaf α)) → Except EvaluationFault (List α)
  | [] => .ok []
  | t :: rest => do
    let value ← evaluateFrom x base t
    let values ← evaluateAllFrom x (base + t.size) rest
    return value :: values

end

/-- The places of a term in post-order: those of the operands of an operator, from left to right,
and then its own. -/
def postorderFrom {β : Type} : Nat → Term β → List Nat :=
  foldFrom (fun place _ => [place]) fun place _ orders => orders.flatten ++ [place]

/-- An operator of a value that may be missing has none where an operand has none. -/
def onResults (place : Nat) (op : Operator) (results : List (Except EvaluationFault α)) :
    Except EvaluationFault α :=
  (results.mapM id).bind (op.compute place)

theorem mapM_foldAllFrom {x : α} {operands : List (Term (Leaf α))} {base : Nat}
    (h : ∀ t ∈ operands, ∀ base,
      foldFrom (fun _ leaf => .ok (leaf.valueAt x)) onResults base t = t.evaluateFrom x base) :
    (foldAllFrom (fun _ leaf => .ok (leaf.valueAt x)) onResults base operands).mapM id =
      evaluateAllFrom x base operands := by
  induction operands generalizing base with
  | nil => rfl
  | cons t rest ih =>
      rw [foldAllFrom, List.mapM_cons, ih fun u hu => h u (by simp [hu]), h t (by simp),
        evaluateAllFrom]
      rfl

theorem foldFrom_eq_evaluateFrom (x : α) (t : Term (Leaf α)) (base : Nat) :
    foldFrom (fun _ leaf => .ok (leaf.valueAt x)) onResults base t = t.evaluateFrom x base := by
  induction t generalizing base with
  | leaf leaf => rfl
  | apply op operands ih =>
      rw [foldFrom, onResults, mapM_foldAllFrom ih, evaluateFrom]
      rfl

end Term

namespace Tree

variable {t : Tree α} {x : α} {place : Nat} {fault : EvaluationFault}

/-- A tree evaluates from a place on as the term does that is laid out there. -/
theorem foldAt?_evaluateFrom {term : Term (Leaf α)} (h : t.Begins place term) :
    t.foldAt? (Carrier.point.valueAt x) place = some (term.evaluateFrom x place) := by
  rw [← Term.foldFrom_eq_evaluateFrom]
  refine foldAt?_of_begins ?_ ?_ h
  · intro i node leaf hplain
    exact Leaf.valueAt_eq hplain x i
  · intro i node op children results hplain
    have hkind : node.kind = .operator op := by
      rw [← Node.kind_plain, hplain]
      rfl
    have happly : Carrier.point.applyAt i op = op.compute (α := α) i :=
      funext (Operator.applyAt_eq_compute i op)
    simp only [Carrier.valueAt, hkind, happly]
    rfl

theorem postorder_eq {term : Term (Leaf α)} (h : t.Begins 0 term) :
    t.postorder = term.postorderFrom 0 := by
  have hfold : t.foldAt? (fun place _ orders => orders.flatten ++ [place]) 0 =
      some (term.postorderFrom 0) := by
    refine foldAt?_of_begins ?_ ?_ h
    · intro i node leaf hplain
      rfl
    · intro i node op children orders hplain
      rfl
  rw [foldAt?, dif_pos t.size_pos] at hfold
  exact Option.some.inj hfold

theorem operands_eq_iff {op : Operator} {operands : List (Term (Leaf α))}
    (h : t.Begins place (.apply op operands)) (hi : place < t.size) {values : List α} :
    t.operands (Carrier.point.valueAt x) place hi = values.map .ok ↔
      Term.evaluateAllFrom x (place + 1) operands = .ok values := by
  obtain ⟨_, -, hchildren, hnodes⟩ := h.node_apply
  have hresults : (t.operands (Carrier.point.valueAt x) place hi).map some =
      (t.node place hi).children.map fun child =>
        t.foldAt? (Carrier.point.valueAt x) child.toNat := map_some_foldFrom hi
  have hstarts : (starts (place + 1) operands).map
      (fun child => t.foldAt? (Carrier.point.valueAt x) child.toNat) =
        (Term.foldAllFrom (fun _ leaf => .ok (leaf.valueAt x)) Term.onResults (place + 1)
          operands).map some := by
    refine foldAt?_starts ?_ hnodes
    intro term _ base hterm
    rw [Term.foldFrom_eq_evaluateFrom]
    exact foldAt?_evaluateFrom hterm
  rw [← hchildren] at hstarts
  have hequal := hresults.trans hstarts
  rw [List.map_inj_right fun _ _ => Option.some.inj] at hequal
  rw [hequal, ← mapM_id_eq_ok_iff,
    Term.mapM_foldAllFrom fun t _ base => Term.foldFrom_eq_evaluateFrom x t base]

/-- An operator of a tree fails: all its operands have values, and it refuses one of them. -/
def FailsAt (t : Tree α) (x : α) (fault : EvaluationFault) : Prop :=
  ∃ op operands values, t.Begins fault.node (.apply op operands) ∧
    Term.evaluateAllFrom x (fault.node + 1) operands = .ok values ∧
      Carrier.point.Refuses fault.node op values fault

theorem fails_iff_failsAt : t.Fails Carrier.point x fault ↔ t.FailsAt x fault := by
  constructor
  · intro h
    obtain ⟨check, ⟨hi, op, hkind, hcheck, hfault⟩, _, values, v, hvalues, hv, hany⟩ := h
    obtain ⟨term, hterm⟩ := exists_begins hi
    obtain ⟨operands, rfl⟩ := hterm.exists_apply hkind
    exact ⟨op, operands, values, hterm, (operands_eq_iff hterm hi).1 hvalues, check, v, hcheck, hv,
      hany, hfault⟩
  · intro h
    obtain ⟨op, operands, values, hterm, hvalues, check, v, hcheck, hv, hany, hfault⟩ := h
    obtain ⟨hi, hkind, -⟩ := hterm.node_apply
    exact ⟨check, ⟨hi, op, hkind, hcheck, hfault⟩, hi, values, v,
      (operands_eq_iff hterm hi).2 hvalues, hv, hany⟩

end Tree

namespace Binary64

theorem isZeroDivisor_iff (v : Float) : Scalar.isZeroDivisor v ↔ v = 0 := by
  show (v == 0 && v.toBits.toNat / 2 ^ 63 == 0) = true ↔ v = 0
  rw [Bool.and_eq_true]
  constructor
  · intro h
    obtain ⟨-, -, heq | ⟨heq, -⟩ | ⟨rfl, -⟩⟩ := Float.beq_iff_ne_nan_and_eq.1 h.1
    · exact heq
    · exact heq
    · exact absurd h.2 (by decide)
  · intro h
    subst h
    decide

theorem isNegative_iff (v : Float) :
    Scalar.isNegative v ↔ Decimal.signBit v ∧ v.isNaN = false := by
  show (Decimal.signBit v && decide (v ≤ 0)) = true ↔ _
  rw [Bool.and_eq_true, decide_eq_true_iff]
  constructor
  · intro h
    exact ⟨h.1, isNaN_of_le_zero h.2⟩
  · intro h
    exact ⟨h.1, le_zero_of_signBit h.1 h.2⟩

end Binary64

/-- Evaluating a tree gives what the term gives that it is laid out from, operand by operand from
left to right. It fails exactly if some operator fails, and then with the fault of the first of
those in post-order, under the place that this operator has in the arena. In binary64 a divisor is
refused if it is the positive zero, and an operand of a root or a logarithm if it has a sign and is
a number. -/
theorem Tree.evaluate_by_structure (t : Tree α) (x : α) :
    (∃ term, t.nodes.LaysOut term ∧ t.evaluate x = term.evaluateFrom x 0 ∧
      ∀ fault, t.evaluate x = .error fault ↔
        IsFirst (term.postorderFrom 0) (t.FailsAt x) fault) ∧
    ((∃ fault, t.evaluate x = .error fault) ↔ ∃ fault, t.FailsAt x fault) ∧
    (∀ v : Float, Scalar.isZeroDivisor v ↔ v = 0) ∧
    (∀ v : Float, Scalar.isNegative v ↔ Decimal.signBit v ∧ v.isNaN = false) := by
  have hfinds := t.finds_evaluateOn Carrier.point x
  have hfails : t.Fails Carrier.point x = t.FailsAt x :=
    funext fun fault => propext fails_iff_failsAt
  refine ⟨?_, ?_, Binary64.isZeroDivisor_iff, Binary64.isNegative_iff⟩
  · obtain ⟨term, hterm⟩ := t.exists_laysOut
    have hbegins : t.Begins 0 term := begins_zero hterm.2
    have hevaluate := foldAt?_evaluateFrom (x := x) hbegins
    rw [foldAt?, dif_pos t.size_pos] at hevaluate
    refine ⟨term, hterm, Option.some.inj hevaluate, ?_⟩
    intro fault
    rw [← hfails, ← postorder_eq hbegins]
    exact hfinds.eq_error_iff fun _ _ h h' => h.unique h'
  · rw [← hfails]
    constructor
    · intro h
      obtain ⟨fault, hfault⟩ := h
      rw [show t.evaluateOn Carrier.point x = .error fault from hfault] at hfinds
      exact ⟨fault, hfinds.holds⟩
    · intro h
      obtain ⟨fault, hfault⟩ := h
      cases hresult : t.evaluate x with
      | error found => exact ⟨found, rfl⟩
      | ok value =>
          rw [show t.evaluateOn Carrier.point x = .ok value from hresult] at hfinds
          have hi : fault.node < t.size := by
            obtain ⟨_, ⟨hi, -⟩, -⟩ := hfault
            exact hi
          exact absurd (mem_postorder hi) (hfinds fault hfault)

end PrefixIntegral
