import PrefixIntegral.Proofs.Lanes
import PrefixIntegral.Proofs.Outcome

namespace PrefixIntegral

variable {α : Type} [Scalar α]

/-- A result at many points that is the result at each: numbers if there is one at each point, else
a fault that some point has. -/
def Lifts (count : Nat) (result : Except EvaluationFault (Lanes α))
    (point : Nat → Except EvaluationFault α) : Prop :=
  match result with
  | .ok v => v.Covers count ∧ ∀ k < count, point k = .ok (v.lane k)
  | .error _ => ∃ k < count, ∃ fault, point k = .error fault

theorem Lifts.congr {count : Nat} {result : Except EvaluationFault (Lanes α)}
    {point other : Nat → Except EvaluationFault α} (h : Lifts count result point)
    (hother : ∀ k < count, other k = point k) : Lifts count result other := by
  cases result with
  | ok v => exact ⟨h.1, fun k hk => (hother k hk).trans (h.2 k hk)⟩
  | error fault =>
      obtain ⟨k, hk, found, hfound⟩ := h
      exact ⟨k, hk, found, (hother k hk).trans hfound⟩

namespace Carrier

variable {count : Nat} {v w : Lanes α}

theorem lifts_error (fault : EvaluationFault) (hcount : 0 < count) :
    Lifts (α := α) count (.error fault) fun _ => .error fault :=
  ⟨0, hcount, fault, rfl⟩

theorem lifts_map (f : α → α) (hv : v.Covers count) :
    Lifts count (.ok (v.map f)) fun k => .ok (f (v.lane k)) :=
  ⟨Lanes.covers_map f hv, fun _ hk => by rw [Lanes.lane_map f hv hk]⟩

theorem lifts_zip (f : α → α → α) (hv : v.Covers count) (hw : w.Covers count) :
    Lifts count (.ok (Lanes.zip f v w)) fun k => .ok (f (v.lane k) (w.lane k)) :=
  ⟨Lanes.covers_zip f hv hw, fun _ hk => by rw [Lanes.lane_zip f hv hw hk]⟩

theorem lifts_raise (hv : v.Covers count) (hw : w.Covers count)
    (h : w.IsUniform ∨ ∀ a b : α, Scalar.power a b = Scalar.pow a b) :
    Lifts count (.ok (Lanes.raise v w)) fun k => .ok (Scalar.power (v.lane k) (w.lane k)) :=
  ⟨Lanes.covers_raise hv hw, fun _ hk => by rw [Lanes.lane_raise hv hw hk h]⟩

theorem lifts_check {result : Except EvaluationFault (Lanes α)}
    {point : Nat → Except EvaluationFault α} (test : α → Bool) (fault : EvaluationFault)
    (hcount : 0 < count) (hv : v.Covers count) (h : Lifts count result point) :
    Lifts count (if v.any test then .error fault else result)
      fun k => if test (v.lane k) then .error fault else point k := by
  by_cases hany : v.any test
  · obtain ⟨k, hk, htest⟩ := (Lanes.any_iff test hv hcount).1 hany
    rw [if_pos hany]
    exact ⟨k, hk, fault, if_pos htest⟩
  · have hnone : ∀ k < count, ¬test (v.lane k) := fun k hk htest =>
      hany ((Lanes.any_iff test hv hcount).2 ⟨k, hk, htest⟩)
    rw [if_neg hany]
    cases result with
    | ok u => exact ⟨h.1, fun k hk => (if_neg (hnone k hk)).trans (h.2 k hk)⟩
    | error other =>
        obtain ⟨k, hk, fault, hfault⟩ := h
        exact ⟨k, hk, fault, (if_neg (hnone k hk)).trans hfault⟩

theorem lifts_foldl (f : α → α → α) {operands : List (Lanes α)}
    (h : ∀ u ∈ operands, u.Covers count) (hv : v.Covers count) :
    Lifts count (.ok (operands.foldl (Lanes.zip f) v)) fun k =>
      .ok ((operands.map (Lanes.lane k)).foldl f (v.lane k)) := by
  induction operands generalizing v with
  | nil => exact ⟨hv, fun _ _ => rfl⟩
  | cons u rest ih =>
      have hu := h u (by simp)
      obtain ⟨hcovers, hlanes⟩ :=
        ih (fun w hw => h w (by simp [hw])) (Lanes.covers_zip f hv hu)
      refine ⟨hcovers, ?_⟩
      intro k hk
      rw [List.foldl_cons, ← Except.ok.inj (hlanes k hk), Lanes.lane_zip f hv hu hk]
      rfl

/-- An operator at many points does to its operands what it does at each point. -/
theorem lifts_applyAt (node : Nat) (op : Operator) {operands : List (Lanes α)} (hcount : 0 < count)
    (h : ∀ u ∈ operands, u.Covers count)
    (hpow : op = .pow → (∀ u ∈ operands.tail, u.IsUniform) ∨
      ∀ a b : α, Scalar.power a b = Scalar.pow a b) :
    Lifts count (Carrier.lanes.applyAt node op operands) fun k =>
      Carrier.point.applyAt node op (operands.map (Lanes.lane k)) := by
  unfold applyAt
  split
  · exact lifts_foldl _ h trivial
  · exact lifts_foldl _ h trivial
  · rename_i a b
    exact lifts_check _ _ hcount (h b (by simp)) (lifts_zip _ (h a (by simp)) (h b (by simp)))
  · rename_i a b
    exact lifts_zip _ (h a (by simp)) (h b (by simp))
  · rename_i a b
    exact lifts_raise (h a (by simp)) (h b (by simp)) ((hpow rfl).imp_left fun hu => hu b (by simp))
  · rename_i a
    exact lifts_check _ _ hcount (h a (by simp)) (lifts_map _ (h a (by simp)))
  · rename_i a
    exact lifts_check _ _ hcount (h a (by simp)) (lifts_map _ (h a (by simp)))
  · rename_i a hmul hadd hsqrt hlog
    have ha := h a (by simp)
    cases op with
    | mul => exact (hmul rfl).elim
    | add => exact (hadd rfl).elim
    | sqrt => exact (hsqrt rfl).elim
    | log => exact (hlog rfl).elim
    | sqr =>
        have hsquare : (Lanes.uniform (Scalar.ofInt 2 : α)).Covers count := trivial
        exact lifts_raise ha hsquare (.inl trivial)
    | sin | cos | tan | cot | exp => exact lifts_map _ ha
    | div | sub | pow => exact lifts_error _ hcount
  · rename_i hmul hadd hone hdiv hsub hraise _ _
    refine ⟨0, hcount, .malformed node, ?_⟩
    -- Only the count of operands decides, and it is the same at a point.
    rcases operands with _ | ⟨a, _ | ⟨b, _ | ⟨c, rest⟩⟩⟩
    · cases op with
      | mul => exact (hmul rfl).elim
      | add => exact (hadd rfl).elim
      | _ => rfl
    · exact (hone a rfl).elim
    · cases op with
      | mul => exact (hmul rfl).elim
      | add => exact (hadd rfl).elim
      | div => exact (hdiv a b rfl rfl).elim
      | sub => exact (hsub a b rfl rfl).elim
      | pow => exact (hraise a b rfl rfl).elim
      | _ => rfl
    · cases op with
      | mul => exact (hmul rfl).elim
      | add => exact (hadd rfl).elim
      | _ => rfl

theorem keeps_applyAt {P : Lanes α → Prop} (hP : Lanes.Closed P) {node : Nat} {op : Operator}
    {operands : List (Lanes α)} (h : ∀ u ∈ operands, P u) {result : Lanes α}
    (hresult : Carrier.lanes.applyAt node op operands = .ok result) : P result := by
  unfold applyAt at hresult
  split at hresult
  · cases hresult
    exact hP.foldl _ h (hP.single _)
  · cases hresult
    exact hP.foldl _ h (hP.single _)
  · split at hresult
    · cases hresult
    · cases hresult
      exact hP.zip _ _ _ (h _ (by simp)) (h _ (by simp))
  · cases hresult
    exact hP.zip _ _ _ (h _ (by simp)) (h _ (by simp))
  · cases hresult
    exact hP.raise _ _ (h _ (by simp)) (h _ (by simp))
  · split at hresult
    · cases hresult
    · cases hresult
      exact hP.map _ _ (h _ (by simp))
  · split at hresult
    · cases hresult
    · cases hresult
      exact hP.map _ _ (h _ (by simp))
  · rename_i a _ _ _ _
    have ha := h a (by simp)
    cases op with
    | sqr =>
        cases hresult
        exact hP.raise _ _ ha (hP.single _)
    | sin | cos | tan | cot | exp | sqrt | log =>
        cases hresult
        exact hP.map _ _ ha
    | mul | div | add | sub | pow => cases hresult
  · cases hresult

end Carrier

theorem lifts_mapM {γ : Type} {count : Nat} {children : List γ}
    {lanes : γ → Except EvaluationFault (Lanes α)} {point : Nat → γ → Except EvaluationFault α}
    (h : ∀ child ∈ children, Lifts count (lanes child) fun k => point k child) :
    (∃ values : List (Lanes α), children.map lanes = values.map .ok ∧
      (∀ u ∈ values, u.Covers count) ∧
        ∀ k < count, (children.map (point k)).mapM id = .ok (values.map (Lanes.lane k))) ∨
    (∃ fault, (children.map lanes).mapM id = .error fault) ∧
      ∃ k < count, ∃ fault, (children.map (point k)).mapM id = .error fault := by
  induction children with
  | nil => exact .inl ⟨[], rfl, by simp, fun _ _ => rfl⟩
  | cons child rest ih =>
      have hchild := h child (by simp)
      simp only [List.map_cons, List.mapM_cons, id]
      cases hfirst : lanes child with
      | error fault =>
          rw [hfirst] at hchild
          obtain ⟨k, hk, other, hother⟩ := hchild
          have hpoint : point k child = .error other := hother
          exact .inr ⟨⟨fault, rfl⟩, k, hk, other, by rw [hpoint]; rfl⟩
      | ok v =>
          rw [hfirst] at hchild
          obtain ⟨hcovers, hlanes⟩ := hchild
          have hpoint : ∀ k < count, point k child = .ok (v.lane k) := hlanes
          rcases ih fun c hc => h c (by simp [hc]) with
            ⟨values, hvalues, hcover, hpoints⟩ | ⟨⟨fault, hfault⟩, k, hk, other, hother⟩
          · refine .inl ⟨v :: values, by rw [hvalues]; rfl, ?_, fun k hk => ?_⟩
            · exact List.forall_mem_cons.2 ⟨hcovers, hcover⟩
            · rw [hpoint k hk, hpoints k hk]
              rfl
          · refine .inr ⟨⟨fault, by rw [hfault]; rfl⟩, k, hk, other, ?_⟩
            rw [hpoint k hk, hother]
            rfl

namespace Carrier

variable {γ : Type} {children : List γ} {lanesOf : γ → Except EvaluationFault (Lanes α)}
  {entry : Node α} {node : Nat}

theorem lifts_valueAt {count : Nat} {x : Lanes α} {pointOf : Nat → γ → Except EvaluationFault α}
    (hcount : 0 < count) (hx : x.Covers count)
    (h : ∀ child ∈ children, Lifts count (lanesOf child) fun k => pointOf k child)
    (hpow : entry.kind = .operator .pow →
      (∀ child ∈ children.tail, ∀ u, lanesOf child = .ok u → u.IsUniform) ∨
        ∀ a b : α, Scalar.power a b = Scalar.pow a b) :
    Lifts count (Carrier.lanes.valueAt x node entry (children.map lanesOf)) fun k =>
      Carrier.point.valueAt (x.lane k) node entry (children.map (pointOf k)) := by
  unfold valueAt
  cases hkind : entry.kind with
  | argument => exact ⟨hx, fun _ _ => rfl⟩
  | constant => exact ⟨trivial, fun _ _ => rfl⟩
  | unknown number => exact lifts_error _ hcount
  | operator op =>
      rcases lifts_mapM h with
        ⟨values, hvalues, hcovers, hpoints⟩ | ⟨⟨fault, hfault⟩, k, hk, other, hother⟩
      · have hpowers : op = .pow → (∀ u ∈ values.tail, u.IsUniform) ∨
            ∀ a b : α, Scalar.power a b = Scalar.pow a b := by
          rintro rfl
          refine (hpow hkind).imp_left ?_
          intro huniform u hu
          have hmem : Except.ok u ∈ (children.map lanesOf).tail := by
            rw [hvalues, ← List.map_tail]
            exact List.mem_map_of_mem hu
          rw [← List.map_tail] at hmem
          obtain ⟨child, hchild, hlanes⟩ := List.mem_map.1 hmem
          exact huniform child hchild u hlanes
        simp only [mapM_id_eq_ok_iff.2 hvalues]
        refine (lifts_applyAt node op hcount hcovers hpowers).congr ?_
        intro k hk
        rw [hpoints k hk]
        rfl
      · simp only [hfault]
        exact ⟨k, hk, other, by simp only [hother]; rfl⟩

theorem keeps_valueAt {P : Lanes α → Prop} (hP : Lanes.Closed P) {x : Lanes α}
    (hx : entry.kind = .argument → P x)
    (h : ∀ child ∈ children, ∀ u, lanesOf child = .ok u → P u) {v : Lanes α}
    (hv : Carrier.lanes.valueAt x node entry (children.map lanesOf) = .ok v) : P v := by
  unfold valueAt at hv
  split at hv
  · cases hv
    exact hx ‹_›
  · cases hv
    exact hP.single _
  · obtain ⟨values, hvalues, happly⟩ := bind_eq_ok_iff.1 hv
    refine keeps_applyAt hP (fun u hu => ?_) happly
    have hmem : Except.ok u ∈ children.map lanesOf := by
      rw [mapM_id_eq_ok_iff.1 hvalues]
      exact List.mem_map_of_mem hu
    obtain ⟨child, hchild, hlanes⟩ := List.mem_map.1 hmem
    exact h child hchild u hlanes
  · cases hv

end Carrier

namespace Tree

/-- The node at a place, or one below it, is the variable. -/
inductive VariesAt (t : Tree α) : Nat → Prop
  | argument {i : Nat} (hi : i < t.size) : (t.node i hi).kind = .argument → VariesAt t i
  | operand {i : Nat} {child : Int} (hi : i < t.size) : child ∈ (t.node i hi).children →
      VariesAt t child.toNat → VariesAt t i

/-- Some power of the tree has an exponent with the variable in it. -/
def RaisesVarying (t : Tree α) : Prop :=
  ∃ i, ∃ hi : i < t.size, (t.node i hi).kind = .operator .pow ∧
    ∃ exponent ∈ (t.node i hi).children.tail, t.VariesAt exponent.toNat

/-- Numbers are raised to the same power whether the exponent is known before the base or not. That
matters only where the exponent varies. -/
def PowersAgree (t : Tree α) : Prop :=
  t.RaisesVarying → ∀ a b : α, Scalar.power a b = Scalar.pow a b

@[elab_as_elim]
theorem place_induction {t : Tree α} {motive : ∀ i, i < t.size → Prop}
    (node : ∀ i hi, (∀ child (hmem : child ∈ (t.node i hi).children),
      motive child.toNat (t.lt_child hi hmem).2) → motive i hi) (i : Nat) (hi : i < t.size) :
    motive i hi := by
  induction hleft : t.size - i using Nat.strongRecOn generalizing i with
  | _ left ih =>
      refine node i hi ?_
      intro child hmem
      obtain ⟨hlt, hin⟩ := t.lt_child hi hmem
      exact ih (t.size - child.toNat) (by omega) child.toNat hin rfl

/-- What operations keep, a value at many points has if the points have it, where the variable
matters. -/
theorem keeps_foldFrom {P : Lanes α → Prop} (hP : Lanes.Closed P) {t : Tree α} {x : Lanes α}
    {i : Nat} (hi : i < t.size) (hx : t.VariesAt i → P x) {v : Lanes α}
    (hv : t.foldFrom (Carrier.lanes.valueAt x) i hi = .ok v) : P v := by
  induction i, hi using place_induction generalizing v with
  | node i hi ih =>
      rw [foldFrom] at hv
      refine Carrier.keeps_valueAt hP (fun hkind => hx (.argument hi hkind)) ?_ hv
      rintro ⟨child, hmem⟩ - u hu
      exact ih child hmem (fun hchild => hx (.operand hi hmem hchild)) hu

theorem isUniform_foldFrom {t : Tree α} {x : Lanes α} {i : Nat} (hi : i < t.size)
    (hvaries : ¬t.VariesAt i) {v : Lanes α}
    (hv : t.foldFrom (Carrier.lanes.valueAt x) i hi = .ok v) : v.IsUniform :=
  keeps_foldFrom Lanes.closed_isUniform hi (fun h => absurd h hvaries) hv

theorem lifts_foldFrom {t : Tree α} (hpowers : t.PowersAgree) {count : Nat} (hcount : 0 < count)
    {x : Lanes α} (hx : x.Covers count) {i : Nat} (hi : i < t.size) :
    Lifts count (t.foldFrom (Carrier.lanes.valueAt x) i hi) fun k =>
      t.foldFrom (Carrier.point.valueAt (x.lane k)) i hi := by
  induction i, hi using place_induction with
  | node i hi ih =>
      simp only [foldFrom.eq_1 t _ i hi]
      refine Carrier.lifts_valueAt hcount hx (fun child _ => ih child.val child.property) ?_
      intro hkind
      by_cases hvaries : t.RaisesVarying
      · exact .inr (hpowers hvaries)
      · refine .inl ?_
        rintro ⟨child, hmem⟩ htail u hu
        refine isUniform_foldFrom (t.lt_child hi hmem).2 (fun hchild => hvaries ?_) hu
        have hchildren := List.mem_map_of_mem (f := Subtype.val) htail
        rw [List.map_tail, List.attach_map_subtype_val] at hchildren
        exact ⟨i, hi, hkind, child, hchildren, hchild⟩

theorem lifts_evaluate {t : Tree α} (hpowers : t.PowersAgree) {xs : List α} (hxs : xs ≠ []) :
    Lifts xs.length (t.evaluateOn Carrier.lanes (.each xs)) fun k =>
      t.evaluate (xs.getD k (Scalar.ofInt 0)) :=
  lifts_foldFrom hpowers (List.length_pos_iff.2 hxs) (x := .each xs) rfl t.size_pos

end Tree

end PrefixIntegral
