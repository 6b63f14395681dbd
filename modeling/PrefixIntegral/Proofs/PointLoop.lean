import Mathlib.Data.List.GetD
import PrefixIntegral.Proofs.Pointwise
import PrefixIntegral.Proofs.Preorder
import PrefixIntegral.Quadrature.Run

/-!
The plain loop over the sample points, and the integration in batches as that loop. The batches
leave no trace in the sum, which adds the same terms in the same order, nor in the fault, which is
that of the first point that has one.
-/

namespace PrefixIntegral

variable {α : Type} [Scalar α]

namespace Tree

/-- Adds to a sum the weighted value at a sample point of the sub-interval from `x` on. -/
def addSample (t : Tree α) (order : Order) (delta x total : α) (j : Nat) :
    Except EvaluationFault α :=
  (t.evaluate (x + Scalar.ofNat j * delta)).map fun value =>
    total + Scalar.ofNat (order.weights.getD j 0) * value

def addInterval (t : Tree α) (order : Order) (delta total x : α) : Except EvaluationFault α :=
  (List.range (order.val + 1)).foldlM (t.addSample order delta x) total

/-- The plain loop over so many sub-intervals, from a start on and a step apart. -/
def pointLoop (t : Tree α) (order : Order) (delta step : α) :
    Nat → α → α → Except EvaluationFault α
  | 0, _, total => .ok total
  | count + 1, x, total =>
    (t.addInterval order delta total x).bind fun total =>
      t.pointLoop order delta step count (x + step) total

end Tree

namespace Sampling

theorem result_replay (s : Sampling α) (fault : EvaluationFault) (points : List α) :
    (s.replay fault points).result = (points.mapM s.tree.evaluate).bind fun _ => .error fault := by
  induction points with
  | nil => rfl
  | cons x rest ih =>
      rw [replay, Evaluated.result_bind, List.mapM_cons, ih]
      show (s.tree.evaluate x).bind _ = _
      cases s.tree.evaluate x with
      | error found => rfl
      | ok value => cases rest.mapM s.tree.evaluate <;> rfl

section Values

variable {evaluate : α → Except EvaluationFault α} {xs : List α}

theorem mapM_of_lifts_ok {v : Lanes α}
    (h : Lifts xs.length (.ok v) fun k => evaluate (xs.getD k (Scalar.ofInt 0))) :
    xs.mapM evaluate = .ok (v.spread xs.length) := by
  obtain ⟨hcovers, hlanes⟩ := h
  rw [mapM_eq_ok_iff]
  refine List.ext_getElem (by simp [Lanes.length_spread hcovers]) fun k hk hk' => ?_
  rw [List.length_map] at hk hk'
  have hlane : evaluate (xs.getD k (Scalar.ofInt 0)) = .ok (v.lane k) := hlanes k hk
  rw [List.getElem_map, List.getElem_map, Lanes.getElem_spread, ← hlane,
    List.getD_eq_getElem _ _ hk]

theorem mapM_of_lifts_error {fault : EvaluationFault}
    (h : Lifts xs.length (.error fault) fun k => evaluate (xs.getD k (Scalar.ofInt 0))) :
    ∃ first, xs.mapM evaluate = .error first := by
  obtain ⟨k, hk, found, hfound⟩ := h
  cases hall : xs.mapM evaluate with
  | error first => exact ⟨first, rfl⟩
  | ok values =>
      have hfail : evaluate xs[k] = .error found := by
        rw [← List.getD_eq_getElem _ (Scalar.ofInt 0) hk]
        exact hfound
      have hmem : evaluate xs[k] ∈ xs.map evaluate := List.mem_map_of_mem (List.getElem_mem hk)
      rw [mapM_eq_ok_iff.1 hall, hfail] at hmem
      obtain ⟨_, -, hok⟩ := List.mem_map.1 hmem
      cases hok

end Values

theorem values_eq_mapM {s : Sampling α} (hpowers : s.tree.PowersAgree) {starts : List α}
    (hne : (s.points starts).values ≠ []) :
    (s.values starts).result = (s.points starts).values.mapM s.tree.evaluate := by
  generalize hxs : (s.points starts).values = xs at hne
  have hlifts := Tree.lifts_evaluate hpowers hne
  have hmany : s.tree.evaluateMany (s.points starts) =
      (s.tree.evaluateOn Carrier.lanes (.each xs)).map (s.points starts).fill := by
    rw [← hxs]
    rfl
  rw [values, Evaluated.result_handle, Evaluated.result_map, evaluateGrid, hmany, hxs]
  cases hresult : s.tree.evaluateOn Carrier.lanes (.each xs) with
  | ok v =>
      rw [hresult] at hlifts
      rw [mapM_of_lifts_ok hlifts, ← hxs]
      rfl
  | error fault =>
      -- The batch only says that some point fails; going through them finds the first that does.
      rw [hresult] at hlifts
      obtain ⟨first, hall⟩ := mapM_of_lifts_error hlifts
      show (s.replay fault xs).result = _
      rw [result_replay, hall]
      rfl

section Rows

variable {evaluate : α → Except EvaluationFault α}

def addTerm (evaluate : α → Except EvaluationFault α) (x total : α) (term : α × α) :
    Except EvaluationFault α :=
  (evaluate (x + term.2)).map fun value => total + term.1 * value

theorem foldlM_addTerm (x : α) (terms : List (α × α)) (total : α) :
    terms.foldlM (addTerm evaluate x) total =
      ((terms.map fun term => x + term.2).mapM evaluate).map fun values =>
        ((terms.map Prod.fst).zip values).foldl (fun total term => total + term.1 * term.2)
          total := by
  induction terms generalizing total with
  | nil => rfl
  | cons term rest ih =>
      rw [List.map_cons, List.map_cons, List.mapM_cons, List.foldlM_cons, addTerm]
      cases evaluate (x + term.2) with
      | error fault => rfl
      | ok value =>
          show List.foldlM _ (total + term.1 * value) rest = _
          rw [ih]
          cases (rest.map fun term => x + term.2).mapM evaluate <;> rfl

theorem foldlM_rows (starts : List α) (terms : List (α × α)) (total : α) :
    starts.foldlM (fun total x => terms.foldlM (addTerm evaluate x) total) total =
      ((starts.flatMap fun x => terms.map fun term => x + term.2).mapM evaluate).map fun values =>
        ((List.replicate starts.length (terms.map Prod.fst)).flatten.zip values).foldl
          (fun total term => total + term.1 * term.2) total := by
  induction starts generalizing total with
  | nil => rfl
  | cons x rest ih =>
      rw [List.foldlM_cons, List.flatMap_cons, List.mapM_append, foldlM_addTerm]
      cases hrow : (terms.map fun term => x + term.2).mapM evaluate with
      | error fault => rfl
      | ok row =>
          have hlength : (terms.map Prod.fst).length = row.length := by
            have := congrArg List.length (mapM_eq_ok_iff.1 hrow)
            simpa using this
          show List.foldlM _ _ rest = _
          rw [ih]
          cases (rest.flatMap fun x => terms.map fun term => x + term.2).mapM evaluate with
          | error fault => rfl
          | ok values =>
              refine congrArg Except.ok ?_
              dsimp only
              rw [List.length_cons, List.replicate_succ, List.flatten_cons, List.zip_append hlength,
                List.foldl_append]

end Rows

def terms (order : Order) (delta : α) : List (α × α) :=
  (List.range (order.val + 1)).map fun j =>
    (Scalar.ofNat (order.weights.getD j 0), Scalar.ofNat j * delta)

theorem factors_eq (order : Order) (delta : α) :
    order.factors = (terms order delta).map Prod.fst := by
  have hweights : order.weights = (List.range (order.val + 1)).map (order.weights.getD · 0) := by
    revert order
    decide
  rw [Order.factors, hweights, List.map_map, terms, List.map_map]
  rfl

theorem offsets_eq (order : Order) (delta : α) :
    order.offsets delta = (terms order delta).map Prod.snd := by
  rw [Order.offsets, terms, List.map_map]
  rfl

theorem points_ne_nil {t : Tree α} {order : Order} {delta : α} {starts : List α}
    (hstarts : starts ≠ []) : ((ofRule t order delta).points starts).values ≠ [] := by
  obtain ⟨x, rest, rfl⟩ := List.exists_cons_of_ne_nil hstarts
  simp [points, ofRule, Order.offsets]

theorem addBatch_eq {t : Tree α} (hpowers : t.PowersAgree) (order : Order) (delta : α)
    {starts : List α} (hstarts : starts ≠ []) (total : α) :
    ((ofRule t order delta).addBatch starts total).result =
      starts.foldlM (t.addInterval order delta) total := by
  have hpoints : ((ofRule t order delta).points starts).values =
      starts.flatMap fun x => (terms order delta).map fun term => x + term.2 := by
    simp only [points, ofRule, offsets_eq, List.map_map]
    rfl
  have hinterval : t.addInterval order delta = fun total x =>
      (terms order delta).foldlM (addTerm t.evaluate x) total := by
    funext total x
    rw [terms, List.foldlM_map]
    rfl
  rw [addBatch, Evaluated.result_map, values_eq_mapM hpowers (points_ne_nil hstarts), hpoints,
    hinterval, foldlM_rows, ← factors_eq]
  rfl

end Sampling

namespace Tree

variable {t : Tree α} {order : Order} {delta step : α}

theorem foldlM_starts (count : Nat) (x total : α) :
    (Walk.starts step count x).foldlM (t.addInterval order delta) total =
      t.pointLoop order delta step count x total := by
  induction count generalizing x total with
  | zero => rfl
  | succ count ih =>
      rw [Walk.starts, List.foldlM_cons, pointLoop]
      cases t.addInterval order delta total x with
      | error fault => rfl
      | ok total => exact ih (x + step) total

theorem pointLoop_add (first second : Nat) (x total : α) :
    t.pointLoop order delta step (first + second) x total =
      (t.pointLoop order delta step first x total).bind fun total =>
        t.pointLoop order delta step second (Walk.advance step first x) total := by
  induction first generalizing x total with
  | zero =>
      rw [Nat.zero_add]
      rfl
  | succ first ih =>
      rw [Nat.succ_add, pointLoop, pointLoop, bind_assoc]
      congr 1
      funext total
      exact ih (x + step) total

end Tree

namespace Walk

theorem batch_ne_nil {w : Walk α} {step : α} {chunkSize : Count} (hleft : w.left ≠ 0) :
    w.batch step chunkSize ≠ [] := by
  have hchunk := chunkSize.property
  unfold batch
  cases hlength : w.batchLength chunkSize with
  | zero =>
      rw [batchLength] at hlength
      omega
  | succ count => simp [starts]

theorem ne_nil_of_mem_batches {w : Walk α} {step : α} {chunkSize : Count} {starts : List α}
    (h : starts ∈ w.batches step chunkSize) : starts ≠ [] := by
  fun_induction batches w step chunkSize with
  | case1 => cases h
  | case2 w hleft _ ih =>
      obtain rfl | hrest := List.mem_cons.1 h
      · exact batch_ne_nil hleft
      · exact ih hrest

theorem pointLoop_batch {t : Tree α} {order : Order} {delta step : α} (w : Walk α)
    (chunkSize : Count) (total : α) :
    t.pointLoop order delta step w.left w.next total =
      ((w.batch step chunkSize).foldlM (t.addInterval order delta) total).bind fun total =>
        t.pointLoop order delta step (w.rest step chunkSize).left (w.rest step chunkSize).next
          total := by
  have hle : w.batchLength chunkSize ≤ w.left := Nat.min_le_right _ _
  rw [batch, Tree.foldlM_starts, rest, ← Tree.pointLoop_add, Nat.add_sub_cancel' hle]

end Walk

namespace Sampling

/-- Adding the batches of a walk in order is the plain loop over the walk. -/
theorem sumInOrder_eq {t : Tree α} (hpowers : t.PowersAgree) {order : Order} {delta step : α}
    {chunkSize : Count} (w : Walk α) (added : Nat) (total : α) :
    ((ofRule t order delta).sumInOrder step chunkSize w .unlimited added total).result =
      (t.pointLoop order delta step w.left w.next total).mapError .evaluation := by
  -- The total is carried from batch to batch, and both sides go on from it with the rest.
  induction hleft : w.left using Nat.strongRecOn generalizing w added total with
  | _ left ih =>
      rw [sumInOrder]
      split
      · rename_i hzero
        rw [← hleft, hzero]
        rfl
      · rename_i hne
        have hallows : Passes.unlimited.allows = true := rfl
        rw [if_pos hallows, ← hleft, w.pointLoop_batch chunkSize,
          addBatch_eq hpowers order delta (Walk.batch_ne_nil hne)]
        cases (w.batch step chunkSize).foldlM (t.addInterval order delta) total with
        | error fault => rfl
        | ok total =>
            have hlt := w.left_rest_lt step chunkSize hne
            exact ih _ (by omega) (w.rest step chunkSize) (added + 1) total rfl

end Sampling

namespace Tree

/-- The weighted sum over an interval by the plain loop, scaled in the end. -/
def loopIntegral (t : Tree α) (order : Order) (lower upper : α) (grain : Count) :
    Except EvaluationFault α :=
  let step := (Step.between lower upper grain.val).width
  let scale := order.scale step
  (t.pointLoop order scale.delta step grain.val lower (Scalar.ofInt 0)).map (· * scale.normalizer)

theorem integrate_eq {t : Tree α} {lower upper : α} {c : Configuration} {passes : Passes}
    (hgrain : Scalar.reaches α c.grain.val = true) :
    t.integrate lower upper c passes =
      t.integrateBy (Step.between lower upper c.grain.val) lower upper c passes := by
  have hzero : ¬(c.grain.val : Int) = 0 := by
    have := c.grain.property
    omega
  rw [integrate, Step.compute, if_neg hzero, if_pos hgrain]

theorem result_integrate {t : Tree α} {lower upper : α} {c : Configuration} {passes : Passes}
    (hgrain : Scalar.reaches α c.grain.val = true) :
    (t.integrate lower upper c passes).result =
      (t.integrateBy (Step.between lower upper c.grain.val) lower upper c passes).result := by
  rw [integrate_eq hgrain]

theorem result_integrate_alone {t : Tree α} {lower upper : α} {c : Configuration} {passes : Passes}
    (halone : c.workers.val = 1 ∨ c.batchCount = 1)
    (hgrain : Scalar.reaches α c.grain.val = true) :
    let step := (Step.between lower upper c.grain.val).width
    let scale := c.order.scale step
    (t.integrate lower upper c passes).result =
      ((Sampling.ofRule t c.order scale.delta).sumInOrder step c.chunkSize ⟨lower, c.grain.val⟩
        passes 0 (Scalar.ofInt 0)).result.map (· * scale.normalizer) := by
  intro step scale
  rw [result_integrate hgrain]
  simp only [integrateBy, if_pos halone]
  rfl

theorem map_mapError {ε φ β γ : Type} (result : Except ε β) (f : ε → φ) (g : β → γ) :
    (result.mapError f).map g = (result.map g).mapError f := by
  cases result <;> rfl

/-- A lone worker that nobody cancels finds what the plain loop finds, whatever the batches. -/
theorem integrate_eq_loopIntegral (t : Tree α) (lower upper : α) (c : Configuration)
    (hworkers : c.workers.val = 1) (hgrain : Scalar.reaches α c.grain.val = true)
    (hpowers : t.PowersAgree) :
    (t.integrate lower upper c .unlimited).result =
      (t.loopIntegral c.order lower upper c.grain).mapError .evaluation := by
  have halone : c.workers.val = 1 ∨ c.batchCount = 1 := .inl hworkers
  rw [result_integrate hgrain]
  simp only [integrateBy, if_pos halone, Sampling.sumInOrder_eq hpowers, map_mapError]
  rfl

def parabola : Tree Float :=
  Term.toTree (.apply .pow [.leaf .argument, .leaf (.constant 2)])
    (.apply rfl (by
      simp only [List.forall_mem_cons, List.not_mem_nil, false_implies, implies_true, and_true]
      exact ⟨.leaf trivial, .leaf (by show Float.isNaN 2 = false; decide)⟩)) ['x']

theorem powersAgree_parabola : parabola.PowersAgree := by
  rintro ⟨i, hi, hkind, exponent, hmem, hvaries⟩
  have hsize : i < 3 := hi
  match i with
  | 0 =>
      have hmem : exponent ∈ [(2 : Int)] := hmem
      obtain rfl := List.mem_singleton.1 hmem
      cases hvaries with
      | argument _ hkind => cases hkind
      | operand _ hchild => cases hchild
  | 1 => cases hkind
  | 2 => cases hkind

theorem integrate_parabola :
    (parabola.integrate 0 1 .default .unlimited).result =
      (parabola.loopIntegral 2 0 1 Settings.coarse).mapError .evaluation :=
  integrate_eq_loopIntegral parabola 0 1 .default rfl (by decide) powersAgree_parabola

end Tree

end PrefixIntegral
