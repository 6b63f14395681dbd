import PrefixIntegral.Proofs.FirstFault
import PrefixIntegral.Proofs.Folds
import PrefixIntegral.Proofs.PointLoop

/-!
Trees over grids of points. A grid has the value of the tree at each of its points, or the fault
that comes first in post-order among those at its points. Where there is no point, only what has no
variable in it is ever computed, and only that can fail.
-/

namespace PrefixIntegral

variable {α : Type} [Scalar α]

namespace Tree

variable {t : Tree α} {count : Nat} {x : Lanes α} {fault : EvaluationFault}

/-! ## Faults at the points -/

theorem operands_lane (hpowers : t.PowersAgree) (hcount : 0 < count) (hx : x.Covers count) {i : Nat}
    {hi : i < t.size} {values : List (Lanes α)}
    (hvalues : t.operands (Carrier.lanes.valueAt x) i hi = values.map .ok) {k : Nat}
    (hk : k < count) : t.operands (Carrier.point.valueAt (x.lane k)) i hi =
      (values.map (Lanes.lane k)).map .ok := by
  rcases lifts_mapM fun (child : { child // child ∈ (t.node i hi).children }) _ =>
      lifts_foldFrom hpowers hcount hx (t.lt_child hi child.property).2 with
    ⟨found, hfound, -, hpoints⟩ | ⟨⟨fault, hfault⟩, -⟩
  · rw [operands, hfound, List.map_inj_right fun _ _ => Except.ok.inj] at hvalues
    subst hvalues
    exact mapM_id_eq_ok_iff.1 (hpoints k hk)
  · cases hfault.symm.trans (mapM_id_eq_ok_iff.2 hvalues)

/-- At many points a tree finds the first of the faults that it has at any of them. -/
theorem finds_lanes (hpowers : t.PowersAgree) (hcount : 0 < count) (hx : x.Covers count) :
    Finds t.postorder (fun other => ∃ k < count, t.Fails Carrier.point (x.lane k) other)
      (t.evaluateOn Carrier.lanes x) := by
  refine finds_foldFrom (fun i hi values hvalues => ?_) t.size_pos
  have hlifts := lifts_foldFrom hpowers hcount hx hi
  cases hresult : t.foldFrom (Carrier.lanes.valueAt x) i hi with
  | error fault =>
      rw [hresult] at hlifts
      obtain ⟨k, hk, other, hother⟩ := hlifts
      obtain ⟨rfl, hfails⟩ := (foldFrom_eq_error_iff hvalues).1 hresult
      obtain ⟨hnode, hpoint⟩ :=
        (foldFrom_eq_error_iff (operands_lane hpowers hcount hx hvalues hk)).1 hother
      obtain rfl := hpoint.unique hfails hnode
      exact ⟨[], [], rfl, ⟨k, hk, hpoint⟩, fun _ _ => List.not_mem_nil⟩
  | ok value =>
      rw [hresult] at hlifts
      rintro other ⟨k, hk, hother⟩ hmem
      obtain ⟨_, hfault⟩ := hother.exists_foldFrom
      obtain rfl := List.mem_singleton.1 hmem
      cases hfault.symm.trans (hlifts.2 k hk)

theorem fails_of_evaluate {a : α} (h : t.evaluate a = .error fault) :
    t.Fails Carrier.point a fault := by
  have hfinds := t.finds_evaluateOn Carrier.point a
  rw [show t.evaluateOn Carrier.point a = .error fault from h] at hfinds
  exact hfinds.holds

/-- The first of the faults that a tree has at any of some points is one that it ends with at one
of them. -/
theorem isFirst_evaluate {points : Nat → α}
    (h : IsFirst t.postorder (fun other => ∃ k < count, t.Fails Carrier.point (points k) other)
      fault) :
    IsFirst t.postorder (fun other => ∃ k < count, t.evaluate (points k) = .error other) fault := by
  obtain ⟨before, after, horder, ⟨k, hk, hfails⟩, hnone⟩ := h
  refine ⟨before, after, horder, ⟨k, hk, ?_⟩, fun other ⟨k, hk, hother⟩ =>
    hnone other ⟨k, hk, fails_of_evaluate hother⟩⟩
  have hfinds := t.finds_evaluateOn Carrier.point (points k)
  show t.evaluateOn Carrier.point (points k) = .error fault
  cases hresult : t.evaluateOn Carrier.point (points k) with
  | ok value =>
      rw [hresult] at hfinds
      exact absurd (by simp [horder]) (hfinds fault hfails)
  | error found =>
      rw [hresult] at hfinds
      obtain ⟨before', after', horder', hfound, hnone'⟩ := hfinds
      have hnode := (eq_of_append_eq (horder'.symm.trans horder) (hnone found ⟨k, hk, hfound⟩)
        (hnone' fault hfails)).1
      rw [hfound.unique hfails hnode]

/-- Points that fail: a tree at many points ends with the first fault, in post-order, that it ends
with at one of them. -/
theorem finds_evaluate (hpowers : t.PowersAgree) (hcount : 0 < count) (hx : x.Covers count) :
    Finds t.postorder (fun other => ∃ k < count, t.evaluate (x.lane k) = .error other)
      (t.evaluateOn Carrier.lanes x) := by
  have hfinds := finds_lanes hpowers hcount hx
  cases hresult : t.evaluateOn Carrier.lanes x with
  | error fault =>
      rw [hresult] at hfinds
      exact isFirst_evaluate hfinds
  | ok value =>
      rw [hresult] at hfinds
      rintro other ⟨k, hk, hother⟩
      exact hfinds other ⟨k, hk, fails_of_evaluate hother⟩

/-! ## No points -/

/-- An operand without the variable has a value of its own, the same at every point. -/
def HasValueAt (t : Tree α) (place : Nat) (value : α) : Prop :=
  ¬t.VariesAt place ∧ ∀ a : α, t.foldAt? (Carrier.point.valueAt a) place = some (.ok value)

/-- The faults that a tree has whatever the points are: the operand that a node checks has no
variable in it, and is refused. -/
def ConstantFails (t : Tree α) (fault : EvaluationFault) : Prop :=
  ∃ check, t.Checks fault check ∧ ∃ (hi : fault.node < t.size) (child : Int) (value : α),
    (t.node fault.node hi).children[check.operand]? = some child ∧
      t.HasValueAt child.toNat value ∧ check.refused value

end Tree

namespace Carrier

omit [Scalar α] in
theorem foldl_uniform (f : α → α → α) (operands : List α) (a : α) :
    (operands.map Lanes.uniform).foldl (Lanes.zip f) (.uniform a) =
      .uniform (operands.foldl f a) := by
  induction operands generalizing a with
  | nil => rfl
  | cons b rest ih => exact ih (f a b)

theorem applyAt_uniform {node : Nat} {op : Operator} {operands : List α}
    (haccepts : op.arity.accepts operands.length) :
    Carrier.lanes.applyAt node op (operands.map Lanes.uniform) =
      (Carrier.point.applyAt node op operands).map Lanes.uniform := by
  cases op with
  | mul | add => exact congrArg Except.ok (foldl_uniform _ operands _)
  | sub | pow =>
      obtain ⟨a, b, rfl⟩ := exists_pair_of_accepts haccepts
      rfl
  | sqr | sin | cos | tan | cot | exp =>
      obtain ⟨a, rfl⟩ := exists_single_of_accepts haccepts
      rfl
  | div =>
      obtain ⟨a, b, rfl⟩ := exists_pair_of_accepts haccepts
      have hcheck : Carrier.lanes.divisorIsZero (.uniform b) = Carrier.point.divisorIsZero b := rfl
      simp only [List.map_cons, List.map_nil, applyAt, hcheck]
      split <;> rfl
  | sqrt | log =>
      obtain ⟨a, rfl⟩ := exists_single_of_accepts haccepts
      have hcheck : Carrier.lanes.isNegative (.uniform a) = Carrier.point.isNegative a := rfl
      simp only [List.map_cons, List.map_nil, applyAt, hcheck]
      split <;> rfl

theorem isUniform_operands {node : Nat} {op : Operator} {operands : List (Lanes α)}
    {result : Lanes α} (hresult : Carrier.lanes.applyAt node op operands = .ok result)
    (h : result.IsUniform) : ∀ u ∈ operands, u.IsUniform := by
  unfold applyAt at hresult
  split at hresult
  · cases hresult
    exact (Lanes.isUniform_foldl.1 h).2
  · cases hresult
    exact (Lanes.isUniform_foldl.1 h).2
  · split at hresult
    · cases hresult
    · cases hresult
      simpa using Lanes.isUniform_zip.1 h
  · cases hresult
    simpa using Lanes.isUniform_zip.1 h
  · cases hresult
    simpa using Lanes.isUniform_raise.1 h
  · split at hresult
    · cases hresult
    · cases hresult
      simpa using Lanes.isUniform_map.1 h
  · split at hresult
    · cases hresult
    · cases hresult
      simpa using Lanes.isUniform_map.1 h
  · rename_i a _ _ _ _
    rw [List.forall_mem_singleton]
    cases op with
    | sqr =>
        cases hresult
        have hsquare : (Lanes.raise a (.uniform (Scalar.ofInt 2))).IsUniform := h
        exact (Lanes.isUniform_raise.1 hsquare).1
    | sin | cos | tan | cot | exp | sqrt | log =>
        cases hresult
        exact Lanes.isUniform_map.1 h
    | mul | div | add | sub | pow => cases hresult
  · cases hresult

end Carrier

namespace Tree

variable {t : Tree α} {fault : EvaluationFault}

theorem foldFrom_uniform (x : Lanes α) (a : α) {i : Nat} (hi : i < t.size)
    (hvaries : ¬t.VariesAt i) : t.foldFrom (Carrier.lanes.valueAt x) i hi =
      (t.foldFrom (Carrier.point.valueAt a) i hi).map Lanes.uniform := by
  induction i, hi using place_induction with
  | node i hi ih =>
      rcases t.node_cases hi with ⟨op, hkind, haccepts⟩ | ⟨hkind | hkind, -⟩
      · have hoperands : t.operands (Carrier.lanes.valueAt x) i hi =
            (t.operands (Carrier.point.valueAt a) i hi).map (Except.map Lanes.uniform) := by
          rw [operands, operands, List.map_map]
          refine List.map_congr_left ?_
          rintro ⟨child, hmem⟩ -
          exact ih child hmem fun hchild => hvaries (.operand hi hmem hchild)
        rw [foldFrom_eq_applyAt hkind, foldFrom_eq_applyAt hkind, hoperands, mapM_id_map]
        cases hvalues : (t.operands (Carrier.point.valueAt a) i hi).mapM id with
        | error fault => rfl
        | ok values =>
            have hlength := t.length_operands (Carrier.point.valueAt a) hi
            rw [mapM_id_eq_ok_iff.1 hvalues, List.length_map] at hlength
            exact Carrier.applyAt_uniform (hlength ▸ haccepts)
      · exact absurd (.argument hi hkind) hvaries
      · rw [foldFrom_eq, foldFrom_eq, Carrier.valueAt, Carrier.valueAt, hkind]
        rfl

theorem not_isUniform_foldFrom {xs : List α} {i : Nat} (hi : i < t.size) (hvaries : t.VariesAt i)
    {v : Lanes α} (hv : t.foldFrom (Carrier.lanes.valueAt (.each xs)) i hi = .ok v) :
    ¬v.IsUniform := by
  induction hvaries generalizing v with
  | argument hin hkind =>
      rw [foldFrom_eq, Carrier.valueAt, hkind] at hv
      cases hv
      exact id
  | @operand i child hin hmem hchild ih =>
      intro huniform
      rcases t.node_cases hi with ⟨op, hkind, -⟩ | ⟨-, hchildren⟩
      · rw [foldFrom_eq_applyAt hkind] at hv
        obtain ⟨values, hvalues, happly⟩ := bind_eq_ok_iff.1 hv
        have hfound : t.foldFrom (Carrier.lanes.valueAt (.each xs)) child.toNat
            (t.lt_child hi hmem).2 ∈ t.operands (Carrier.lanes.valueAt (.each xs)) i hi :=
          List.mem_map_of_mem (List.mem_attach _ ⟨child, hmem⟩)
        rw [mapM_id_eq_ok_iff.1 hvalues] at hfound
        obtain ⟨u, hu, hvalue⟩ := List.mem_map.1 hfound
        exact ih (t.lt_child hi hmem).2 hvalue.symm
          (Carrier.isUniform_operands happly huniform u hu)
      · rw [hchildren] at hmem
        cases hmem

theorem operands_values {β : Type} {combine : Nat → Node α → List (Except EvaluationFault β) →
    Except EvaluationFault β} {i : Nat} {hi : i < t.size} {values : List β}
    (hvalues : t.operands combine i hi = values.map .ok) :
    (t.node i hi).children.map (fun child => t.foldAt? combine child.toNat) =
      values.map fun value => some (.ok value) := by
  rw [← map_some_foldFrom hi, show List.map _ _ = t.operands combine i hi from rfl, hvalues,
    List.map_map]
  rfl

theorem foldAt?_eq_some {γ : Type} {combine : Nat → Node α → List γ → γ} {i : Nat} {value : γ} :
    t.foldAt? combine i = some value ↔ ∃ hi, t.foldFrom combine i hi = value := by
  unfold foldAt?
  split
  · simp [*]
  · simp [*]

theorem any_iff_hasValueAt {i : Nat} {v : Lanes α}
    (hv : t.foldAt? (Carrier.lanes.valueAt (.each [])) i = some (.ok v)) (test : α → Bool) :
    v.any test ↔ ∃ value, t.HasValueAt i value ∧ test value := by
  obtain ⟨hi, hfold⟩ := foldAt?_eq_some.1 hv
  by_cases hvaries : t.VariesAt i
  · have hnone : (Lanes.each ([] : List α)).Covers 0 := rfl
    have hcovers : v.Covers 0 := keeps_foldFrom (Lanes.closed_covers 0) hi (fun _ => hnone) hfold
    refine iff_of_false ?_ fun ⟨_, hvalue, _⟩ => hvalue.1 hvaries
    cases v with
    | uniform value => exact absurd trivial (not_isUniform_foldFrom hi hvaries hfold)
    | each values =>
        obtain rfl := List.length_eq_zero_iff.1 hcovers
        exact Bool.false_ne_true
  · have hpoint := fun a => (foldFrom_uniform (.each []) a hi hvaries).symm.trans hfold
    have hvalue : ∀ value, t.HasValueAt i value ↔ v = .uniform value := by
      intro value
      constructor
      · rintro ⟨-, hvalue⟩
        obtain ⟨_, hown⟩ := foldAt?_eq_some.1 (hvalue (Scalar.ofInt 0))
        have hsame := hpoint (Scalar.ofInt 0)
        rw [hown] at hsame
        exact (Except.ok.inj hsame).symm
      · rintro rfl
        refine ⟨hvaries, fun a => foldAt?_eq_some.2 ⟨hi, ?_⟩⟩
        obtain ⟨found, hfound, hsame⟩ := map_eq_ok_iff.1 (hpoint a)
        rw [hfound, Lanes.uniform.inj hsame]
    cases v with
    | uniform value =>
        constructor
        · intro hany
          exact ⟨value, (hvalue value).2 rfl, hany⟩
        · rintro ⟨other, hother, htest⟩
          obtain rfl := Lanes.uniform.inj ((hvalue other).1 hother)
          exact htest
    | each values => exact absurd (isUniform_foldFrom hi hvaries hfold) id

/-- Over no points, once the operands of a node have values, it fails exactly where an operand
without the variable fails its check. -/
theorem fails_iff_constantFails {hi : fault.node < t.size} {values : List (Lanes α)}
    (hvalues : t.operands (Carrier.lanes.valueAt (.each [])) fault.node hi = values.map .ok) :
    t.Fails Carrier.lanes (.each []) fault ↔ t.ConstantFails fault := by
  have hchildren := operands_values hvalues
  refine exists_congr fun check => and_congr_right fun _ => ?_
  constructor
  · rintro ⟨_, values', v, hvalues', hv, hany⟩
    rw [hvalues, List.map_inj_right fun _ _ => Except.ok.inj] at hvalues'
    subst hvalues'
    have hchild := congrArg (·[check.operand]?) hchildren
    simp only [List.getElem?_map, hv, Option.map_some] at hchild
    obtain ⟨child, hmem, hvalue⟩ := Option.map_eq_some_iff.1 hchild
    obtain ⟨value, hown, hrefused⟩ := (any_iff_hasValueAt hvalue _).1 hany
    exact ⟨hi, child, value, hmem, hown, hrefused⟩
  · rintro ⟨_, child, value, hmem, hown, hrefused⟩
    have hoperand := congrArg (·[check.operand]?) hchildren
    simp only [List.getElem?_map, hmem, Option.map_some] at hoperand
    obtain ⟨v, hv, hvalue⟩ := Option.map_eq_some_iff.1 hoperand.symm
    exact ⟨hi, values, v, hvalues, hv,
      (any_iff_hasValueAt hvalue.symm _).2 ⟨value, hown, hrefused⟩⟩

theorem finds_constantFails (t : Tree α) :
    Finds t.postorder t.ConstantFails (t.evaluateOn Carrier.lanes (.each [])) := by
  refine finds_foldFrom (fun i hi values hvalues => ?_) t.size_pos
  cases hresult : t.foldFrom (Carrier.lanes.valueAt (.each [])) i hi with
  | error fault =>
      obtain ⟨rfl, hfails⟩ := (foldFrom_eq_error_iff hvalues).1 hresult
      exact ⟨[], [], rfl, (fails_iff_constantFails hvalues).1 hfails, fun _ _ => List.not_mem_nil⟩
  | ok value =>
      intro other hother hmem
      obtain rfl := List.mem_singleton.1 hmem
      obtain ⟨_, hfault⟩ := ((fails_iff_constantFails hvalues).2 hother).exists_foldFrom
      cases hfault.symm.trans hresult

theorem ConstantFails.unique {other : EvaluationFault} (h : t.ConstantFails fault)
    (hother : t.ConstantFails other) (hnode : fault.node = other.node) : fault = other := by
  obtain ⟨check, hchecks, -⟩ := h
  obtain ⟨check', hchecks', -⟩ := hother
  exact hchecks.unique hchecks' hnode

/-! ## Grids -/

omit [Scalar α] in
theorem covers_lanes (g : Grid α) : g.lanes.Covers g.values.length := by
  unfold Grid.lanes
  split
  · trivial
  · rfl

theorem lane_lanes (g : Grid α) {k : Nat} (hk : k < g.values.length) :
    g.lanes.lane k = g.values[k] := by
  unfold Grid.lanes
  split
  · rename_i value _ hvalues
    simp only [hvalues, List.getElem_singleton, Lanes.lane]
  · simp [Lanes.lane, hk]

theorem exists_lane_iff (g : Grid α) {P : α → Prop} :
    (∃ k < g.values.length, P (g.lanes.lane k)) ↔ ∃ x ∈ g.values, P x := by
  constructor
  · rintro ⟨k, hk, h⟩
    exact ⟨g.values[k], List.getElem_mem hk, lane_lanes g hk ▸ h⟩
  · rintro ⟨x, hx, h⟩
    obtain ⟨k, hk, rfl⟩ := List.getElem_of_mem hx
    exact ⟨k, hk, (lane_lanes g hk).symm ▸ h⟩

theorem evaluateMany_eq_error_iff {g : Grid α} :
    t.evaluateMany g = .error fault ↔ t.evaluateOn Carrier.lanes g.lanes = .error fault :=
  map_eq_error_iff

theorem evaluateMany_eq_ok_iff (hpowers : t.PowersAgree) {g result : Grid α}
    (hne : g.values ≠ []) : t.evaluateMany g = .ok result ↔
      result.shape = g.shape ∧ g.values.map t.evaluate = result.values.map .ok := by
  have hcount := List.length_pos_iff.2 hne
  have hlifts := lifts_foldFrom hpowers hcount (covers_lanes g) t.size_pos
  rw [show t.foldFrom (Carrier.lanes.valueAt g.lanes) 0 t.size_pos =
    t.evaluateOn Carrier.lanes g.lanes from rfl] at hlifts
  rw [evaluateMany]
  cases hresult : t.evaluateOn Carrier.lanes g.lanes with
  | error fault =>
      rw [hresult] at hlifts
      refine iff_of_false nofun ?_
      rintro ⟨-, hvalues⟩
      obtain ⟨k, hk, found, hfound⟩ := hlifts
      have hfound : t.evaluate (g.lanes.lane k) = .error found := hfound
      rw [lane_lanes g hk] at hfound
      have hmem : t.evaluate g.values[k] ∈ g.values.map t.evaluate :=
        List.mem_map_of_mem (List.getElem_mem hk)
      rw [hvalues] at hmem
      obtain ⟨_, -, hok⟩ := List.mem_map.1 hmem
      cases hok.trans hfound
  | ok v =>
      rw [hresult] at hlifts
      have hpoints : g.values.map t.evaluate = (v.spread g.values.length).map .ok := by
        refine mapM_eq_ok_iff.1 (Sampling.mapM_of_lifts_ok (hlifts.congr fun k hk => ?_))
        rw [lane_lanes g hk, List.getD_eq_getElem _ _ hk]
        rfl
      rw [hpoints, List.map_inj_right fun _ _ => Except.ok.inj]
      constructor
      · rintro ⟨⟩
        exact ⟨rfl, rfl⟩
      · rintro ⟨hshape, hvalues⟩
        show Except.ok (Grid.mk g.shape (v.spread g.values.length)) = _
        rw [hvalues, ← hshape]

/-- Over some points a tree has exactly the fault that comes first in post-order among those that it
has at the points. -/
theorem evaluateMany_eq_error_iff_of_points (hpowers : t.PowersAgree) {g : Grid α}
    (hne : g.values ≠ []) : t.evaluateMany g = .error fault ↔
      IsFirst t.postorder (fun other => ∃ x ∈ g.values, t.evaluate x = .error other) fault := by
  have hfinds := finds_evaluate hpowers (List.length_pos_iff.2 hne) (covers_lanes g)
  have hfaults : (fun other => ∃ k < g.values.length, t.evaluate (g.lanes.lane k) = .error other) =
      fun other => ∃ x ∈ g.values, t.evaluate x = .error other :=
    funext fun other => propext (exists_lane_iff g (P := fun x => t.evaluate x = .error other))
  rw [hfaults] at hfinds
  rw [evaluateMany_eq_error_iff]
  refine hfinds.eq_error_iff ?_
  rintro f f' ⟨x, -, hf⟩ ⟨x', -, hf'⟩ hnode
  exact (fails_of_evaluate hf).unique (fails_of_evaluate hf') hnode

theorem evaluateMany_fails_iff_of_points (hpowers : t.PowersAgree) {g : Grid α}
    (hne : g.values ≠ []) : (∃ fault, t.evaluateMany g = .error fault) ↔
      ∃ x ∈ g.values, ∃ fault, t.evaluate x = .error fault := by
  constructor
  · rintro ⟨fault, hfault⟩
    have hfirst := (evaluateMany_eq_error_iff_of_points hpowers hne).1 hfault
    obtain ⟨x, hx, hpoint⟩ := hfirst.holds
    exact ⟨x, hx, fault, hpoint⟩
  · rintro ⟨x, hx, fault, hfault⟩
    cases hresult : t.evaluateMany g with
    | error found => exact ⟨found, rfl⟩
    | ok result =>
        obtain ⟨-, hvalues⟩ := (evaluateMany_eq_ok_iff hpowers hne).1 hresult
        have hmem : t.evaluate x ∈ g.values.map t.evaluate := List.mem_map_of_mem hx
        rw [hvalues] at hmem
        obtain ⟨_, -, hok⟩ := List.mem_map.1 hmem
        cases hok.trans hfault

omit [Scalar α] in
theorem lanes_of_empty {g : Grid α} (hempty : g.values = []) : g.lanes = .each [] := by
  unfold Grid.lanes
  split
  · simp_all
  · rw [hempty]

/-- Over no points a tree has exactly the first in post-order of the faults that it has whatever
the points are. -/
theorem evaluateMany_eq_error_iff_of_empty {g : Grid α} (hempty : g.values = []) :
    t.evaluateMany g = .error fault ↔ IsFirst t.postorder t.ConstantFails fault := by
  rw [evaluateMany_eq_error_iff, lanes_of_empty hempty]
  exact t.finds_constantFails.eq_error_iff fun _ _ => ConstantFails.unique

theorem evaluateMany_eq_ok_iff_of_empty {g : Grid α} (hempty : g.values = []) :
    t.evaluateMany g = .ok ⟨g.shape, []⟩ ↔ ∀ fault, ¬t.ConstantFails fault := by
  have hfinds := t.finds_constantFails
  rw [evaluateMany, lanes_of_empty hempty]
  cases hresult : t.evaluateOn Carrier.lanes (.each []) with
  | error fault =>
      rw [hresult] at hfinds
      exact iff_of_false nofun fun hnone => hnone fault hfinds.holds
  | ok v =>
      rw [hresult] at hfinds
      have hnone : (Lanes.each ([] : List α)).Covers 0 := rfl
      have hcovers : v.Covers 0 :=
        keeps_foldFrom (Lanes.closed_covers 0) t.size_pos (fun _ => hnone) hresult
      refine iff_of_true ?_ fun fault hfault => ?_
      · show Except.ok (Grid.mk g.shape (v.spread g.values.length)) = _
        rw [hempty, List.length_nil, List.length_eq_zero_iff.1 (Lanes.length_spread hcovers)]
      · obtain ⟨check, ⟨hi, -⟩, -⟩ := id hfault
        exact hfinds fault hfault (mem_postorder hi)

/-- A tree over a grid. Over some points, it fails exactly if it fails at one of them, and with the
first fault in post-order that it has at any; else it has at every point, in the shape of the grid,
the value that it has there. Over no points, it fails exactly if a checked operand without the
variable is refused, and with the first such fault in post-order; else it is the empty grid. -/
theorem evaluateMany_pointwise (t : Tree α) (g : Grid α) :
    (t.PowersAgree → g.values ≠ [] →
      ((∃ fault, t.evaluateMany g = .error fault) ↔
        ∃ x ∈ g.values, ∃ fault, t.evaluate x = .error fault) ∧
      (∀ fault, t.evaluateMany g = .error fault ↔
        IsFirst t.postorder (fun other => ∃ x ∈ g.values, t.evaluate x = .error other) fault) ∧
      ∀ result, t.evaluateMany g = .ok result ↔
        result.shape = g.shape ∧ g.values.map t.evaluate = result.values.map .ok) ∧
    (g.values = [] →
      (∀ fault, t.evaluateMany g = .error fault ↔ IsFirst t.postorder t.ConstantFails fault) ∧
      (t.evaluateMany g = .ok ⟨g.shape, []⟩ ↔ ∀ fault, ¬t.ConstantFails fault)) := by
  constructor
  · intro hpowers hne
    exact ⟨evaluateMany_fails_iff_of_points hpowers hne,
      fun _ => evaluateMany_eq_error_iff_of_points hpowers hne,
      fun _ => evaluateMany_eq_ok_iff hpowers hne⟩
  · intro hempty
    exact ⟨fun _ => evaluateMany_eq_error_iff_of_empty hempty,
      evaluateMany_eq_ok_iff_of_empty hempty⟩

def inverse : Tree Float :=
  Term.toTree (.apply .div [.leaf (.constant 1), .leaf .argument])
    (.apply rfl (by
      simp only [List.forall_mem_cons, List.not_mem_nil, false_implies, implies_true, and_true]
      exact ⟨.leaf (by show Float.isNaN 1 = false; decide), .leaf trivial⟩)) ['x']

theorem powersAgree_inverse : inverse.PowersAgree := by
  rintro ⟨i, hi, hkind, -⟩
  have hsize : i < 3 := hi
  match i with
  | 0 | 1 | 2 => cases hkind

/-- Among points with a zero it fails, and over none it does not. -/
theorem evaluateMany_inverse :
    (∃ fault, inverse.evaluateMany ⟨[3], [1, 0, -1]⟩ = .error fault) ∧
      inverse.evaluateMany ⟨[0, 2], []⟩ = .ok ⟨[0, 2], []⟩ := by
  have hpoints := (evaluateMany_pointwise inverse ⟨[3], [1, 0, -1]⟩).1 powersAgree_inverse
    (List.cons_ne_nil _ _)
  have hzero : inverse.evaluate 0 = .error (.divisionByZero 0) := by with_unfolding_all rfl
  refine ⟨hpoints.1.2 ⟨0, by simp, _, hzero⟩, ?_⟩
  refine ((evaluateMany_pointwise inverse ⟨[0, 2], []⟩).2 rfl).2.2 fun fault hfault => ?_
  obtain ⟨check, ⟨hi, op, hkind, hcheck, -⟩, hin, child, value, hmem, ⟨hvaries, -⟩, -⟩ := hfault
  have hsize : fault.node < 3 := hi
  generalize fault.node = i at *
  match i with
  | 0 =>
      -- The divisor is what it checks, and that is the variable.
      cases hkind
      cases hcheck
      cases hmem
      exact hvaries (.argument (by decide) rfl)
  | 1 | 2 => cases hkind

end Tree

end PrefixIntegral
