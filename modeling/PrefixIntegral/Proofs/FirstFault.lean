import PrefixIntegral.Proofs.Pointwise
import PrefixIntegral.Proofs.Validation

/-!
The fault that an evaluation ends with. Every node that is refused its operands is a fault that the
tree has, and the evaluation ends with the first of them in post-order, in which the operands of a
node come before it and from left to right. That holds of numbers of any kind, a single one or one
for each of many points.
-/

namespace PrefixIntegral

variable {α β γ : Type}

def EvaluationFault.node : EvaluationFault → Nat
  | divisionByZero node => node
  | negativeSquareRoot node => node
  | negativeLogarithm node => node
  | malformed node => node

/-- Of the faults there are, the one whose node comes first in an order. -/
def IsFirst (order : List Nat) (fails : EvaluationFault → Prop) (fault : EvaluationFault) : Prop :=
  ∃ before after, order = before ++ fault.node :: after ∧ fails fault ∧
    ∀ other, fails other → other.node ∉ before

/-- A result finds the first of the faults there are, or there is none in the order. -/
def Finds (order : List Nat) (fails : EvaluationFault → Prop) (result : Except EvaluationFault γ) :
    Prop :=
  match result with
  | .ok _ => ∀ other, fails other → other.node ∉ order
  | .error fault => IsFirst order fails fault

variable {order : List Nat} {fails : EvaluationFault → Prop} {fault : EvaluationFault}

theorem IsFirst.mem (h : IsFirst order fails fault) : fault.node ∈ order := by
  obtain ⟨before, after, rfl, -, -⟩ := h
  simp

theorem IsFirst.holds (h : IsFirst order fails fault) : fails fault := by
  obtain ⟨before, after, -, hfails, -⟩ := h
  exact hfails

/-- Two cuts of an order, each before its node, are the same cut if neither node comes before the
other cut. -/
theorem eq_of_append_eq {first second : Nat} {before before' after after' : List Nat}
    (h : before ++ first :: after = before' ++ second :: after') (hfirst : first ∉ before')
    (hsecond : second ∉ before) : first = second ∧ before = before' := by
  induction before generalizing before' with
  | nil =>
      cases before' with
      | nil => exact ⟨(List.cons.inj h).1, rfl⟩
      | cons place rest => exact absurd ((List.cons.inj h).1 ▸ List.mem_cons_self) hfirst
  | cons place rest ih =>
      cases before' with
      | nil => exact absurd ((List.cons.inj h).1 ▸ List.mem_cons_self) hsecond
      | cons place' rest' =>
          obtain ⟨rfl, htail⟩ := List.cons.inj h
          obtain ⟨rfl, rfl⟩ := ih htail (List.not_mem_of_not_mem_cons hfirst)
            (List.not_mem_of_not_mem_cons hsecond)
          exact ⟨rfl, rfl⟩

theorem IsFirst.eq (hnode : ∀ f g, fails f → fails g → f.node = g.node → f = g)
    {other : EvaluationFault} (h : IsFirst order fails fault) (hother : IsFirst order fails other) :
    fault = other := by
  obtain ⟨before, after, rfl, hfault, hnone⟩ := h
  obtain ⟨before', after', heq, hfails, hnone'⟩ := hother
  exact hnode _ _ hfault hfails
    (eq_of_append_eq heq (hnone' _ hfault) (hnone _ hfails)).1

theorem Finds.eq_error_iff {result : Except EvaluationFault γ} (h : Finds order fails result)
    (hnode : ∀ f g, fails f → fails g → f.node = g.node → f = g) :
    result = .error fault ↔ IsFirst order fails fault := by
  cases result with
  | ok value => exact iff_of_false nofun fun hfirst => h fault hfirst.holds hfirst.mem
  | error found =>
      constructor
      · intro hfound
        exact Except.error.inj hfound ▸ h
      · intro hfirst
        exact congrArg _ (IsFirst.eq hnode h hfirst)

theorem IsFirst.append_right (h : IsFirst order fails fault) (more : List Nat) :
    IsFirst (order ++ more) fails fault := by
  obtain ⟨before, after, rfl, hfails, hnone⟩ := h
  exact ⟨before, after ++ more, by simp, hfails, hnone⟩

theorem IsFirst.append_left {earlier : List Nat} (h : IsFirst order fails fault)
    (hnone : ∀ other, fails other → other.node ∉ earlier) :
    IsFirst (earlier ++ order) fails fault := by
  obtain ⟨before, after, rfl, hfails, hbefore⟩ := h
  refine ⟨earlier ++ before, after, by simp, hfails, ?_⟩
  intro other hother hmem
  rcases List.mem_append.1 hmem with hmem | hmem
  · exact hnone other hother hmem
  · exact hbefore other hother hmem

theorem Finds.bind {earlier : List Nat} {result : Except EvaluationFault β}
    {f : β → Except EvaluationFault γ} (h : Finds earlier fails result)
    (hf : ∀ value, result = .ok value → Finds order fails (f value)) :
    Finds (earlier ++ order) fails (result.bind f) := by
  cases result with
  | error fault => exact IsFirst.append_right h order
  | ok value =>
      have hvalue := hf value rfl
      show Finds _ _ (f value)
      cases hresult : f value with
      | error fault =>
          rw [hresult] at hvalue
          exact IsFirst.append_left hvalue h
      | ok result =>
          rw [hresult] at hvalue
          intro other hother hmem
          rcases List.mem_append.1 hmem with hmem | hmem
          · exact h other hother hmem
          · exact hvalue other hother hmem

theorem finds_mapM {δ : Type} {children : List δ} {orders : δ → List Nat}
    {results : δ → Except EvaluationFault γ}
    (h : ∀ child ∈ children, Finds (orders child) fails (results child)) :
    Finds (children.map orders).flatten fails ((children.map results).mapM id) := by
  induction children with
  | nil => exact fun other _ => List.not_mem_nil
  | cons child rest ih =>
      rw [List.map_cons, List.map_cons, List.flatten_cons, List.mapM_cons]
      refine Finds.bind (h child (by simp)) fun value _ => ?_
      have hrest := ih fun other hmem => h other (by simp [hmem])
      have hlast := hrest.bind fun values _ =>
        (show Finds [] fails (.ok (value :: values)) from fun other _ => List.not_mem_nil)
      rwa [List.append_nil] at hlast

/-- A check of the domain of an operator: the operand it looks at, what it refuses, and the fault
that it gives. -/
structure DomainCheck (α : Type) where
  operand : Nat
  refused : α → Bool
  fault : Nat → EvaluationFault

def Operator.domainCheck? [Scalar α] : Operator → Option (DomainCheck α)
  | div => some ⟨1, Scalar.isZeroDivisor, .divisionByZero⟩
  | sqrt => some ⟨0, Scalar.isNegative, .negativeSquareRoot⟩
  | log => some ⟨0, Scalar.isNegative, .negativeLogarithm⟩
  | _ => none

theorem Operator.node_fault_domainCheck? [Scalar α] {op : Operator} {check : DomainCheck α}
    (h : op.domainCheck? = some check) (node : Nat) : (check.fault node).node = node := by
  cases op <;> cases h <;> rfl

namespace Carrier

variable [Scalar α]

def Refuses (c : Carrier α β) (node : Nat) (op : Operator) (operands : List β)
    (fault : EvaluationFault) : Prop :=
  ∃ check v, op.domainCheck? = some check ∧ operands[check.operand]? = some v ∧
    c.any check.refused v ∧ fault = check.fault node

variable {c : Carrier α β} {node : Nat} {op : Operator} {operands : List β}

theorem exists_pair_of_accepts {operands : List γ}
    (h : (⟨2, some 2⟩ : Arity).accepts operands.length) : ∃ a b, operands = [a, b] := by
  simp only [Arity.accepts, Bool.and_eq_true, decide_eq_true_eq] at h
  exact List.length_eq_two.1 (by omega)

theorem exists_single_of_accepts {operands : List γ}
    (h : (⟨1, some 1⟩ : Arity).accepts operands.length) : ∃ a, operands = [a] := by
  simp only [Arity.accepts, Bool.and_eq_true, decide_eq_true_eq] at h
  exact List.length_eq_one_iff.1 (by omega)

theorem not_refuses (h : op.domainCheck? (α := α) = none) : ¬c.Refuses node op operands fault := by
  rintro ⟨check, v, hcheck, -⟩
  cases h.symm.trans hcheck

theorem check_eq_error_iff {check : DomainCheck α} (hcheck : op.domainCheck? = some check) {v : β}
    (hv : operands[check.operand]? = some v) (value : β) :
    (if c.any check.refused v then .error (check.fault node)
      else (.ok value : Except EvaluationFault β)) = .error fault ↔
      c.Refuses node op operands fault := by
  have hrefuses : c.Refuses node op operands fault ↔
      c.any check.refused v ∧ fault = check.fault node := by
    constructor
    · rintro ⟨other, w, hother, hw, hany, hfault⟩
      obtain rfl := Option.some.inj (hcheck.symm.trans hother)
      obtain rfl := Option.some.inj (hv.symm.trans hw)
      exact ⟨hany, hfault⟩
    · rintro ⟨hany, hfault⟩
      exact ⟨check, v, hcheck, hv, hany, hfault⟩
  rw [hrefuses]
  cases c.any check.refused v <;> simp [eq_comm]

theorem applyAt_eq_error_iff (haccepts : op.arity.accepts operands.length) :
    c.applyAt node op operands = .error fault ↔ c.Refuses node op operands fault := by
  cases op with
  | mul | add => exact iff_of_false nofun (not_refuses rfl)
  | sub | pow =>
      obtain ⟨a, b, rfl⟩ := exists_pair_of_accepts haccepts
      exact iff_of_false nofun (not_refuses rfl)
  | sqr | sin | cos | tan | cot | exp =>
      obtain ⟨a, rfl⟩ := exists_single_of_accepts haccepts
      exact iff_of_false nofun (not_refuses rfl)
  | div =>
      obtain ⟨a, b, rfl⟩ := exists_pair_of_accepts haccepts
      have hcheck : Operator.div.domainCheck? (α := α) = some _ := rfl
      exact check_eq_error_iff hcheck (show [a, b][1]? = some b from rfl) _
  | sqrt =>
      obtain ⟨a, rfl⟩ := exists_single_of_accepts haccepts
      have hcheck : Operator.sqrt.domainCheck? (α := α) = some _ := rfl
      exact check_eq_error_iff hcheck (show [a][0]? = some a from rfl) _
  | log =>
      obtain ⟨a, rfl⟩ := exists_single_of_accepts haccepts
      have hcheck : Operator.log.domainCheck? (α := α) = some _ := rfl
      exact check_eq_error_iff hcheck (show [a][0]? = some a from rfl) _

end Carrier

namespace Tree

variable [Scalar α] {t : Tree α}

theorem length_operands (t : Tree α) (combine : Nat → Node α → List γ → γ) {i : Nat}
    (hi : i < t.size) : (t.operands combine i hi).length = (t.node i hi).children.length := by
  rw [operands, List.length_map, List.length_attach]

theorem checkNode_node (t : Tree α) {i : Nat} (hi : i < t.size) :
    ∃ place, Arena.checkNode place (t.node i hi) = .ok () :=
  Arena.checkNode_of_mem (Arena.validate_checkNodes t.valid) (Array.getElem_mem_toList hi)

theorem node_cases (t : Tree α) {i : Nat} (hi : i < t.size) :
    (∃ op, (t.node i hi).kind = .operator op ∧
      op.arity.accepts (t.node i hi).children.length) ∨
    ((t.node i hi).kind = .argument ∨ (t.node i hi).kind = .constant) ∧
      (t.node i hi).children = [] := by
  obtain ⟨place, hcheck⟩ := t.checkNode_node hi
  unfold Arena.checkNode at hcheck
  cases hkind : (t.node i hi).kind with
  | operator op =>
      rw [hkind] at hcheck
      by_cases haccepts : op.arity.accepts (t.node i hi).children.length
      · exact .inl ⟨op, rfl, haccepts⟩
      · simp [haccepts] at hcheck
  | argument =>
      rw [hkind] at hcheck
      cases hchildren : (t.node i hi).children with
      | nil => exact .inr ⟨.inl rfl, rfl⟩
      | cons child rest => simp [hchildren] at hcheck
  | constant =>
      rw [hkind] at hcheck
      cases hchildren : (t.node i hi).children with
      | nil => exact .inr ⟨.inr rfl, rfl⟩
      | cons child rest => simp [hchildren] at hcheck
  | unknown number =>
      rw [hkind] at hcheck
      simp at hcheck

def postorderFrom (t : Tree α) (i : Nat) (hi : i < t.size) : List Nat :=
  t.foldFrom (fun place _ operands => operands.flatten ++ [place]) i hi

/-- The places of a tree in post-order: those of the operands of a node, from left to right, and
then the node. -/
def postorder (t : Tree α) : List Nat := t.postorderFrom 0 t.size_pos

theorem postorderFrom_eq (t : Tree α) {i : Nat} (hi : i < t.size) :
    t.postorderFrom i hi = ((t.node i hi).children.attach.map fun child =>
      t.postorderFrom child.val.toNat (t.lt_child hi child.property).2).flatten ++ [i] :=
  t.foldFrom_eq _ hi

theorem self_mem_postorderFrom (t : Tree α) {i : Nat} (hi : i < t.size) :
    i ∈ t.postorderFrom i hi := by
  rw [postorderFrom_eq]
  simp

theorem mem_postorderFrom_operand {i root : Nat} (hroot : root < t.size) (hi : i < t.size)
    (h : i ∈ t.postorderFrom root hroot) {child : Int} (hmem : child ∈ (t.node i hi).children) :
    child.toNat ∈ t.postorderFrom root hroot := by
  induction root, hroot using place_induction with
  | node root hroot ih =>
      rw [postorderFrom_eq] at h ⊢
      rw [List.mem_append, List.mem_flatten] at h ⊢
      left
      rcases h with ⟨places, hplaces, hin⟩ | hself
      · obtain ⟨⟨other, hother⟩, -, rfl⟩ := List.mem_map.1 hplaces
        exact ⟨_, List.mem_map_of_mem (List.mem_attach _ ⟨other, hother⟩), ih other hother hin⟩
      · obtain rfl := List.mem_singleton.1 hself
        exact ⟨_, List.mem_map_of_mem (List.mem_attach _ ⟨child, hmem⟩),
          t.self_mem_postorderFrom (t.lt_child hi hmem).2⟩

theorem mem_postorder {i : Nat} (hi : i < t.size) : i ∈ t.postorder := by
  induction i using Nat.strongRecOn with
  | ind i ih =>
      rcases Nat.eq_zero_or_pos i with rfl | hpos
      · exact t.self_mem_postorderFrom t.size_pos
      · obtain ⟨hplaces, -⟩ := Arena.validate_zero_iff.1 t.valid
        obtain ⟨parent, hlt, hmem⟩ := Arena.parent_of_checkPlaces hplaces i hpos hi
        have hparent : parent < t.size := Nat.lt_trans hlt hi
        have hnode : t.nodes.toList[parent]? = some (t.node parent hparent) := by
          rw [Array.getElem?_toList]
          exact Array.getElem?_eq_getElem hparent
        rw [Arena.childrenAt_of_getElem? hnode] at hmem
        exact mem_postorderFrom_operand t.size_pos hparent (ih parent hlt hparent) hmem

variable {c : Carrier α β} {x : β}

theorem foldFrom_eq_applyAt {i : Nat} {hi : i < t.size} {op : Operator}
    (hkind : (t.node i hi).kind = .operator op) : t.foldFrom (c.valueAt x) i hi =
      ((t.operands (c.valueAt x) i hi).mapM id).bind (c.applyAt i op) := by
  rw [foldFrom_eq, Carrier.valueAt, hkind]
  rfl

/-- An evaluation finds the first fault in post-order, if every node does on its own once all of its
operands have values. -/
theorem finds_foldFrom
    (hnode : ∀ i hi (values : List β), t.operands (c.valueAt x) i hi = values.map .ok →
      Finds [i] fails (t.foldFrom (c.valueAt x) i hi)) {i : Nat} (hi : i < t.size) :
    Finds (t.postorderFrom i hi) fails (t.foldFrom (c.valueAt x) i hi) := by
  induction i, hi using place_induction with
  | node i hi ih =>
      rw [postorderFrom_eq]
      rcases t.node_cases hi with ⟨op, hkind, -⟩ | ⟨-, hchildren⟩
      · rw [foldFrom_eq_applyAt hkind]
        refine Finds.bind (finds_mapM fun child _ => ih child.val child.property) ?_
        intro values hvalues
        have hown := hnode i hi values (mapM_id_eq_ok_iff.1 hvalues)
        rwa [foldFrom_eq_applyAt hkind, hvalues] at hown
      · have hnone : t.operands (c.valueAt x) i hi = ([] : List β).map .ok :=
          List.length_eq_zero_iff.1 (by rw [length_operands, hchildren]; rfl)
        have hplaces : ((t.node i hi).children.attach.map fun child =>
            t.postorderFrom child.val.toNat (t.lt_child hi child.property).2) = [] :=
          List.length_eq_zero_iff.1 (by rw [List.length_map, List.length_attach, hchildren]; rfl)
        rw [hplaces]
        exact hnode i hi [] hnone

/-- The node that a fault names checks its operands and would give this fault. -/
def Checks (t : Tree α) (fault : EvaluationFault) (check : DomainCheck α) : Prop :=
  ∃ hi op, (t.node fault.node hi).kind = .operator op ∧ op.domainCheck? = some check ∧
    fault = check.fault fault.node

theorem Checks.unique {fault' : EvaluationFault} {check check' : DomainCheck α}
    (h : t.Checks fault check) (h' : t.Checks fault' check') (hnode : fault.node = fault'.node) :
    fault = fault' := by
  obtain ⟨hi, op, hkind, hcheck, hfault⟩ := h
  obtain ⟨hi', op', hkind', hcheck', hfault'⟩ := h'
  have hsame : t.node fault.node hi = t.node fault'.node hi' := by
    simp only [hnode]
  rw [hsame, hkind'] at hkind
  obtain rfl := Kind.operator.inj hkind
  obtain rfl := Option.some.inj (hcheck.symm.trans hcheck')
  rw [hfault, hfault', hnode]

/-- The faults that a tree has at a point: a node whose operands all have values refuses the one
that it checks. -/
def Fails (t : Tree α) (c : Carrier α β) (x : β) (fault : EvaluationFault) : Prop :=
  ∃ check, t.Checks fault check ∧ ∃ (hi : fault.node < t.size) (values : List β) (v : β),
    t.operands (c.valueAt x) fault.node hi = values.map .ok ∧ values[check.operand]? = some v ∧
      c.any check.refused v

theorem Fails.unique {c' : Carrier α γ} {x' : γ} {fault' : EvaluationFault}
    (h : t.Fails c x fault) (h' : t.Fails c' x' fault') (hnode : fault.node = fault'.node) :
    fault = fault' := by
  obtain ⟨check, hchecks, -⟩ := h
  obtain ⟨check', hchecks', -⟩ := h'
  exact hchecks.unique hchecks' hnode

theorem foldFrom_eq_error_iff {i : Nat} {hi : i < t.size} {values : List β}
    (hvalues : t.operands (c.valueAt x) i hi = values.map .ok) :
    t.foldFrom (c.valueAt x) i hi = .error fault ↔ fault.node = i ∧ t.Fails c x fault := by
  have hlength : values.length = (t.node i hi).children.length := by
    have := t.length_operands (c.valueAt x) hi
    rwa [hvalues, List.length_map] at this
  rcases t.node_cases hi with ⟨op, hkind, haccepts⟩ | ⟨hkind, -⟩
  · rw [foldFrom_eq_applyAt hkind, bind_of_ok (mapM_id_eq_ok_iff.2 hvalues),
      Carrier.applyAt_eq_error_iff (hlength ▸ haccepts)]
    constructor
    · rintro ⟨check, v, hcheck, hv, hany, rfl⟩
      have hnode := Operator.node_fault_domainCheck? hcheck i
      refine ⟨hnode, check, ⟨hnode.symm ▸ hi, op, ?_, hcheck, by rw [hnode]⟩,
        hnode.symm ▸ hi, values, v, ?_, hv, hany⟩
      · simpa only [hnode] using hkind
      · simpa only [hnode] using hvalues
    · rintro ⟨rfl, check, ⟨_, op', hkind', hcheck, hfault⟩, _, values', v, hvalues', hv, hany⟩
      obtain rfl := Kind.operator.inj (hkind.symm.trans hkind')
      rw [hvalues, List.map_inj_right fun _ _ => Except.ok.inj] at hvalues'
      exact ⟨check, v, hcheck, hvalues' ▸ hv, hany, hfault⟩
  · refine iff_of_false ?_ ?_
    · rcases hkind with hkind | hkind <;> rw [foldFrom_eq, Carrier.valueAt, hkind] <;> exact nofun
    · rintro ⟨rfl, check, ⟨_, op, hop, -⟩, -⟩
      rcases hkind with hkind | hkind <;> cases hop.symm.trans hkind

theorem Fails.exists_foldFrom (h : t.Fails c x fault) :
    ∃ hi, t.foldFrom (c.valueAt x) fault.node hi = .error fault := by
  obtain ⟨check, hchecks, hi, values, v, hvalues, hrefused⟩ := h
  exact ⟨hi, (foldFrom_eq_error_iff hvalues).2 ⟨rfl, check, hchecks, hi, values, v, hvalues,
    hrefused⟩⟩

/-- An evaluation finds the first fault that the tree has. -/
theorem finds_evaluateOn (t : Tree α) (c : Carrier α β) (x : β) :
    Finds t.postorder (t.Fails c x) (t.evaluateOn c x) := by
  refine finds_foldFrom (fun i hi values hvalues => ?_) t.size_pos
  cases hresult : t.foldFrom (c.valueAt x) i hi with
  | error fault =>
      obtain ⟨rfl, hfails⟩ := (foldFrom_eq_error_iff hvalues).1 hresult
      exact ⟨[], [], rfl, hfails, fun _ _ => List.not_mem_nil⟩
  | ok value =>
      intro other hother hmem
      obtain ⟨_, hfault⟩ := hother.exists_foldFrom
      obtain rfl := List.mem_singleton.1 hmem
      cases hfault.symm.trans hresult

end Tree

end PrefixIntegral
