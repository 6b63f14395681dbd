import PrefixIntegral.Proofs.Courses
import PrefixIntegral.Proofs.FirstFault
import PrefixIntegral.Proofs.Regrouping

/-!
Integration that may be cancelled. It has the result of the integration that nobody cancels, or is
cancelled: a sum of some of the batches is never a result. Every check of every batch is told by the
course of an integration, so it can be seen which checks a value has passed.
-/

namespace PrefixIntegral

open BatchEvent

variable {α : Type} [Scalar α]

namespace Sampling

def recordInOrder (s : Sampling α) (step : α) (chunkSize : Count) (w : Walk α) (passes : Passes)
    (added : Nat) (total : α) : List (BatchEvent α) × Summation α :=
  if h : w.left = 0 then ([], ⟨added, .ok total⟩)
  else
    let starts := w.batch step chunkSize
    if passes.allows then
      match (s.addBatch starts total).result with
      | .error fault =>
        ([.checked starts true, .evaluated starts (s.addBatch starts total).points],
          ⟨added, .error (.evaluation fault)⟩)
      | .ok total =>
        have := w.left_rest_lt step chunkSize h
        let others := s.recordInOrder step chunkSize (w.rest step chunkSize) passes.next (added + 1)
          total
        (.checked starts true :: .evaluated starts (s.addBatch starts total).points :: others.1,
          others.2)
    else ([.checked starts false], ⟨added, .error .cancelled⟩)
  termination_by w.left

variable {s : Sampling α} {step : α} {chunkSize : Count}

theorem recordInOrder_summation (w : Walk α) (passes : Passes) (added : Nat) (total : α) :
    (s.recordInOrder step chunkSize w passes added total).2 =
      s.sumInOrder step chunkSize w passes added total := by
  fun_induction sumInOrder s step chunkSize w passes added total with
  | case1 w passes added total hzero => rw [recordInOrder, dif_pos hzero]
  | case2 w passes added total hne hallows fault hbatch =>
      rw [recordInOrder, dif_neg hne, if_pos hallows, hbatch]
  | case3 w passes added total hne hallows next hbatch _ ih =>
      rw [recordInOrder, dif_neg hne, if_pos hallows, hbatch]
      exact ih
  | case4 w passes added total hne hallows => rw [recordInOrder, dif_neg hne, if_neg hallows]

theorem sumInOrder_or_cancelled (s : Sampling α) (step : α) (chunkSize : Count) (w : Walk α)
    (passes : Passes) (added : Nat) (total : α) :
    (s.sumInOrder step chunkSize w passes added total).result =
        (s.sumInOrder step chunkSize w .unlimited added total).result ∨
      (s.sumInOrder step chunkSize w passes added total).result = .error .cancelled := by
  have hunlimited : Passes.unlimited.allows = true := rfl
  fun_induction sumInOrder s step chunkSize w passes added total with
  | case1 w passes added total hzero =>
      left
      rw [sumInOrder, dif_pos hzero]
  | case2 w passes added total hne hallows fault hbatch =>
      left
      rw [sumInOrder, dif_neg hne, if_pos hunlimited, hbatch]
  | case3 w passes added total hne hallows next hbatch _ ih =>
      rw [sumInOrder.eq_def s step chunkSize w .unlimited, dif_neg hne, if_pos hunlimited, hbatch]
      exact ih
  | case4 => exact .inr rfl

theorem checks_recordInOrder {w : Walk α} {passes : Passes} {added : Nat} {total sum : α}
    (h : (s.recordInOrder step chunkSize w passes added total).2.result = .ok sum) :
    checks (s.recordInOrder step chunkSize w passes added total).1 =
      (w.batches step chunkSize).map (·, true) := by
  fun_induction recordInOrder s step chunkSize w passes added total with
  | case1 w passes added total hzero =>
      rw [Walk.batches_of_done hzero]
      rfl
  | case2 => cases h
  | case3 w passes added total hne starts hallows next hbatch _ others ih =>
      rw [Walk.batches_of_left hne, List.map_cons, ← ih h]
      rfl
  | case4 => cases h

theorem recordInOrder_exhausted {w : Walk α} (hleft : w.left ≠ 0) (added : Nat) (total : α) :
    s.recordInOrder step chunkSize w .exhausted added total =
      ([.checked (w.batch step chunkSize) false], ⟨added, .error .cancelled⟩) := by
  rw [recordInOrder, dif_neg hleft]
  rfl

/-- A lone worker that may check so many batches is cancelled exactly if there are more and none
of those has a fault. -/
theorem sumInOrder_cancelled_iff (w : Walk α) (count added : Nat) (total : α) :
    (s.sumInOrder step chunkSize w (some count) added total).result = .error .cancelled ↔
      count < (w.batches step chunkSize).length ∧
        ∀ starts ∈ (w.batches step chunkSize).take count,
          ∃ values, (s.values starts).result = .ok values := by
  induction count generalizing w added total with
  | zero =>
      rw [sumInOrder]
      split
      · rename_i hzero
        rw [Walk.batches_of_done hzero]
        exact iff_of_false (by rintro ⟨⟩) fun h => Nat.lt_irrefl _ h.1
      · rename_i hne
        rw [Walk.batches_of_left hne]
        exact iff_of_true rfl ⟨Nat.succ_pos _, by simp⟩
  | succ count ih =>
      rw [sumInOrder]
      split
      · rename_i hzero
        rw [Walk.batches_of_done hzero]
        exact iff_of_false (by rintro ⟨⟩) fun h => Nat.not_lt_zero _ h.1
      · rename_i hne
        have hallows : Passes.allows (some (count + 1)) = true := rfl
        rw [Walk.batches_of_left hne, if_pos hallows, List.length_cons, List.take_succ_cons,
          List.forall_mem_cons, Nat.succ_lt_succ_iff]
        cases hbatch : (s.addBatch (w.batch step chunkSize) total).result with
        | error fault =>
            have hfails := map_eq_error_iff.1 hbatch
            refine iff_of_false (by rintro ⟨⟩) ?_
            rintro ⟨-, ⟨values, hvalues⟩, -⟩
            cases hvalues.symm.trans hfails
        | ok next =>
            obtain ⟨values, hvalues, -⟩ := map_eq_ok_iff.1 hbatch
            have hrest := ih (w.rest step chunkSize) (added + 1) next
            exact hrest.trans (and_congr_right fun _ => (and_iff_right ⟨values, hvalues⟩).symm)

end Sampling

namespace Tree

variable {t : Tree α} {lower upper : α} {c : Configuration} {passes : Passes}
  {course : List (BatchEvent α)} {result : Except IntegrationFault α}

def record (t : Tree α) (lower upper : α) (c : Configuration) (passes : Passes) :
    List (BatchEvent α) × Summation α :=
  (t.sampling lower upper c).recordInOrder (Step.between lower upper c.grain.val).width c.chunkSize
    ⟨lower, c.grain.val⟩ passes 0 (Scalar.ofInt 0)

def normalizer (lower upper : α) (c : Configuration) : α :=
  (c.order.scale (Step.between lower upper c.grain.val).width).normalizer

/-- What may happen in an integration that may pass so many checks, and what it then comes to. A
pool may be cancelled at any time besides, and its workers may take turns in any way. -/
inductive Integrates (t : Tree α) (lower upper : α) (c : Configuration) (passes : Passes) :
    List (BatchEvent α) → Except IntegrationFault α → Prop
  | alone : c.workers.val = 1 ∨ c.batchCount = 1 →
      Integrates t lower upper c passes (t.record lower upper c passes).1
        ((t.record lower upper c passes).2.result.map (· * normalizer lower upper c))
  | pooled {schedule : List Move} {last : Pool α} {found : Except IntegrationFault α} :
      ¬(c.workers.val = 1 ∨ c.batchCount = 1) →
      (Pool.begin ⟨lower, c.grain.val⟩ passes).run? (t.poolPlan lower upper c) schedule =
        some last →
      last.outcome = some found →
      Integrates t lower upper c passes
        ((Pool.begin ⟨lower, c.grain.val⟩ passes).course (t.poolPlan lower upper c) schedule)
        (found.map (· * normalizer lower upper c))

theorem result_integrate_record (halone : c.workers.val = 1 ∨ c.batchCount = 1)
    (hgrain : Scalar.reaches α c.grain.val = true) :
    (t.integrate lower upper c passes).result =
      (t.record lower upper c passes).2.result.map (· * normalizer lower upper c) := by
  rw [result_integrate_alone halone hgrain, record, Sampling.recordInOrder_summation]
  rfl

theorem result_integrate_settle (t : Tree α) (lower upper : α) (passes : Passes)
    (hpooled : ¬(c.workers.val = 1 ∨ c.batchCount = 1))
    (hgrain : Scalar.reaches α c.grain.val = true) : ∃ schedule last found,
      (Pool.begin ⟨lower, c.grain.val⟩ passes).run? (t.poolPlan lower upper c) schedule =
        some last ∧ last.outcome = some found ∧
      (t.integrate lower upper c passes).result = found.map (· * normalizer lower upper c) := by
  obtain ⟨schedule, -, hrun, houtcome⟩ := Pool.Stocked.exists_run_settle (5 * c.batchCount)
    (Pool.stocked_begin c.grain.property) (Nat.le_of_eq (t.movesLeft_begin lower upper c passes))
  obtain ⟨found, hfound⟩ := Option.isSome_iff_exists.1 houtcome
  refine ⟨schedule, _, found, hrun, hfound, ?_⟩
  rw [result_integrate_pooled hpooled hgrain, PoolPlan.sum, hfound]
  rfl

theorem exists_integrates (t : Tree α) (lower upper : α) (c : Configuration) (passes : Passes)
    (hgrain : Scalar.reaches α c.grain.val = true) :
    ∃ course,
      t.Integrates lower upper c passes course (t.integrate lower upper c passes).result := by
  by_cases halone : c.workers.val = 1 ∨ c.batchCount = 1
  · rw [result_integrate_record halone hgrain]
    exact ⟨_, .alone halone⟩
  · obtain ⟨schedule, last, found, hrun, hfound, hresult⟩ :=
      t.result_integrate_settle lower upper passes halone hgrain
    rw [hresult]
    exact ⟨_, .pooled halone hrun hfound⟩

theorem Integrates.result_or_cancelled (hgrain : Scalar.reaches α c.grain.val = true)
    (h : t.Integrates lower upper c passes course result) :
    result = (t.integrate lower upper c .unlimited).result ∨ result = .error .cancelled := by
  cases h with
  | alone halone =>
      rw [result_integrate_record halone hgrain, record, record, Sampling.recordInOrder_summation,
        Sampling.recordInOrder_summation]
      obtain hsame | hcancelled := (t.sampling lower upper c).sumInOrder_or_cancelled
        (Step.between lower upper c.grain.val).width c.chunkSize ⟨lower, c.grain.val⟩ passes 0
        (Scalar.ofInt 0)
      · rw [hsame]
        exact .inl rfl
      · rw [hcancelled]
        exact .inr rfl
  | pooled hpooled hrun houtcome =>
      rw [result_integrate_of_pool hpooled hgrain]
      obtain hsum | ⟨_, rfl, hcancelled⟩ := (Pool.leads_run hrun).outcome _ houtcome
      · rw [hsum, PoolPlan.addAll_eq]
        exact .inl rfl
      · rw [hcancelled]
        exact .inr rfl

/-- A value is come to only after every batch has been checked once and has passed. -/
theorem Integrates.checks_perm {value : α}
    (h : t.Integrates lower upper c passes course (.ok value)) :
    (checks course).Perm ((batches lower upper c).map (·, true)) := by
  generalize hresult : (.ok value : Except IntegrationFault α) = result at h
  cases h with
  | alone halone =>
      obtain ⟨sum, hsum, -⟩ := map_eq_ok_iff.1 hresult.symm
      exact .of_eq (Sampling.checks_recordInOrder hsum)
  | pooled hpooled hrun houtcome =>
      obtain ⟨sum, rfl, -⟩ := map_eq_ok_iff.1 hresult.symm
      exact (Pool.accounts_run hrun).checks_perm houtcome

theorem Integrates.exhausted (h : t.Integrates lower upper c .exhausted course result) :
    result = .error .cancelled ∧ ∀ event ∈ course, ∃ starts, event = .checked starts false := by
  cases h with
  | alone halone =>
      have hleft : (⟨lower, c.grain.val⟩ : Walk α).left ≠ 0 := Nat.ne_of_gt c.grain.property
      rw [record, Sampling.recordInOrder_exhausted hleft, List.forall_mem_singleton]
      exact ⟨rfl, _, rfl⟩
  | pooled hpooled hrun houtcome =>
      obtain ⟨hbarred, hevents⟩ := Pool.barred_run hrun
      rw [hbarred.outcome _ houtcome]
      exact ⟨rfl, hevents⟩

/-- A lone worker that may check so many batches is cancelled exactly if there are more and none of
those has a point with a fault. -/
theorem integrate_cancelled_iff (halone : c.workers.val = 1)
    (hgrain : Scalar.reaches α c.grain.val = true) (hpowers : t.PowersAgree) (count : Nat) :
    (t.integrate lower upper c (some count)).result = .error .cancelled ↔
      count < c.batchCount ∧ ∀ starts ∈ (batches lower upper c).take count,
        ∀ x ∈ ((t.sampling lower upper c).points starts).values,
          ∃ value, t.evaluate x = .ok value := by
  rw [result_integrate_record (.inl halone) hgrain, map_eq_error_iff, record,
    Sampling.recordInOrder_summation, Sampling.sumInOrder_cancelled_iff,
    ← length_batches lower upper c]
  refine and_congr_right fun _ => forall₂_congr fun starts hmem => ?_
  have hstarts : starts ≠ [] := Walk.ne_nil_of_mem_batches (List.mem_of_mem_take hmem)
  have hvalues : ((t.sampling lower upper c).values starts).result =
      ((t.sampling lower upper c).points starts).values.mapM t.evaluate :=
    Sampling.values_eq_mapM hpowers (Sampling.points_ne_nil hstarts)
  rw [hvalues, exists_mapM_eq_ok_iff]

/-- An integration that may be cancelled at any time, by a lone worker or by several that take turns
in any way. It comes to the very value or fault of the integration that nobody cancels, or is
cancelled. It comes to a value only after every batch has been checked once and has passed;
cancelled before it begins, it only refuses batches, evaluates none and is cancelled. It is never
stuck, and ends after five moves at most for each batch. A lone worker whose checks pass so many
times is cancelled exactly if there are more batches and none of those has a point with a fault. -/
theorem integrate_cancellable (t : Tree α) (lower upper : α) (c : Configuration)
    (hgrain : Scalar.reaches α c.grain.val = true) :
    (∀ passes course result, t.Integrates lower upper c passes course result →
      (result = (t.integrate lower upper c .unlimited).result ∨ result = .error .cancelled) ∧
      (∀ value, result = .ok value →
        (checks course).Perm ((batches lower upper c).map (·, true)) ∧
          (checks course).length = c.batchCount) ∧
      (passes = .exhausted → result = .error .cancelled ∧
        ∀ event ∈ course, ∃ starts, event = .checked starts false)) ∧
    (∀ passes, ∃ course,
      t.Integrates lower upper c passes course (t.integrate lower upper c passes).result) ∧
    (∀ passes schedule last,
      (Pool.begin ⟨lower, c.grain.val⟩ passes).run? (t.poolPlan lower upper c) schedule =
        some last →
      schedule.length ≤ 5 * c.batchCount + schedule.count .cancel ∧
        (last.outcome = none →
          ∃ move, move ≠ .cancel ∧ (last.move? (t.poolPlan lower upper c) move).isSome)) ∧
    (c.workers.val = 1 → t.PowersAgree → ∀ count : Nat,
      (t.integrate lower upper c (some count)).result = .error .cancelled ↔
        count < c.batchCount ∧ ∀ starts ∈ (batches lower upper c).take count,
          ∀ x ∈ ((t.sampling lower upper c).points starts).values,
            ∃ value, t.evaluate x = .ok value) := by
  refine ⟨?_, fun passes => t.exists_integrates lower upper c passes hgrain, ?_, ?_⟩
  · intro passes course result h
    refine ⟨h.result_or_cancelled hgrain, ?_, ?_⟩
    · rintro value rfl
      have hchecks := h.checks_perm
      refine ⟨hchecks, ?_⟩
      rw [hchecks.length_eq, List.length_map, length_batches]
    · rintro rfl
      exact h.exhausted
  · intro passes schedule last hrun
    have hmoves := Pool.movesLeft_run hrun
    rw [movesLeft_begin] at hmoves
    refine ⟨by omega, fun hopen => ⟨last.plainMove (t.poolPlan lower upper c), ?_⟩⟩
    exact (Pool.stocked_run c.grain.property hrun).plainMove_isSome _ hopen
  · intro halone hpowers count
    exact integrate_cancelled_iff halone hgrain hpowers count

theorem evaluate_parabola (x : Float) : parabola.evaluate x = .ok (Scalar.power x 2) := by
  have hsize : parabola.size = 3 := rfl
  have hbase : parabola.foldFrom (Carrier.point.valueAt x) 1 (by omega) = .ok x := by
    rw [foldFrom_eq]
    rfl
  have hexponent : parabola.foldFrom (Carrier.point.valueAt x) 2 (by omega) = .ok 2 := by
    rw [foldFrom_eq]
    rfl
  show parabola.foldFrom (Carrier.point.valueAt x) 0 _ = _
  rw [foldFrom_eq]
  show Carrier.point.valueAt x 0 _ [parabola.foldFrom (Carrier.point.valueAt x) 1 _,
    parabola.foldFrom (Carrier.point.valueAt x) 2 _] = _
  rw [hbase, hexponent]
  rfl

/-- The square of the variable in two batches: cancelled before two workers begin, and between the
batches of one worker. -/
theorem integrate_cancellable_parabola :
    let pooled : Configuration := ⟨2, ⟨4, by decide⟩, ⟨2, by decide⟩, ⟨2, by decide⟩⟩
    let alone : Configuration := ⟨2, ⟨4, by decide⟩, ⟨2, by decide⟩, ⟨1, by decide⟩⟩
    (parabola.integrate 0 1 pooled .exhausted).result = .error .cancelled ∧
      (parabola.integrate 0 1 alone (some 1)).result = .error .cancelled := by
  intro pooled alone
  constructor
  · have h := integrate_cancellable parabola 0 1 pooled (by decide)
    obtain ⟨course, hcourse⟩ := h.2.1 .exhausted
    exact ((h.1 _ course _ hcourse).2.2 rfl).1
  · have h := integrate_cancellable parabola 0 1 alone (by decide)
    refine (h.2.2.2 rfl powersAgree_parabola 1).2 ⟨by decide, fun starts _ x _ => ?_⟩
    exact ⟨_, evaluate_parabola x⟩

end Tree

end PrefixIntegral
