import PrefixIntegral.Proofs.Cancellation
import PrefixIntegral.Proofs.Polynomials
import PrefixIntegral.Proofs.SamplePoints

/-!
Batches by running sums. Each batch is made at once, as the running sums of its first start and of
steps, and the batch after it goes on from its last start. Nothing is asked of addition, and still
the starts are those of a walk that adds one step after another. An integration that comes to a
value has evaluated each batch once, so its points are the same however the walk is cut.
-/

namespace PrefixIntegral

open BatchEvent

variable {α : Type} [Scalar α]

namespace Walk

def runningSums : List α → List α
  | [] => []
  | first :: rest => rest.scanl (· + ·) first

def increments (carry step : α) (count : Nat) : List α := (List.replicate count step).set 0 carry

/-- The batches as running sums. The next batch starts a step after the last start of this one. -/
def batchesFrom (step : α) (grain : Nat) (chunkSize : Count) (carry : α) (first : Nat) :
    List (List α) :=
  if first < grain then
    let sums := runningSums (increments carry step (min chunkSize.val (grain - first)))
    sums :: batchesFrom step grain chunkSize ((sums.getLast?.map (· + step)).getD carry)
      (first + chunkSize.val)
  else []
  termination_by grain - first
  decreasing_by
    have := chunkSize.property
    omega

variable {step : α}

theorem scanl_replicate (count : Nat) (x : α) :
    (List.replicate count step).scanl (· + ·) x = starts step (count + 1) x := by
  induction count generalizing x with
  | zero => rfl
  | succ count ih =>
      rw [List.replicate_succ, List.scanl_cons, ih]
      rfl

theorem runningSums_increments (count : Nat) (x : α) :
    runningSums (increments x step count) = starts step count x := by
  cases count with
  | zero => rfl
  | succ count =>
      rw [increments, List.replicate_succ, List.set_cons_zero, runningSums, scanl_replicate]

theorem getLast?_starts (count : Nat) (x : α) :
    (starts step (count + 1) x).getLast?.map (· + step) = some (advance step (count + 1) x) := by
  induction count generalizing x with
  | zero => rfl
  | succ count ih =>
      have hmore : starts step (count + 1) (x + step) ≠ [] := List.cons_ne_nil _ _
      rw [starts, List.getLast?_cons_of_ne_nil hmore, ih]
      rfl

theorem batchesFrom_eq (step : α) (grain : Nat) (chunkSize : Count) (carry : α) (first : Nat) :
    batchesFrom step grain chunkSize carry first =
      (⟨carry, grain - first⟩ : Walk α).batches step chunkSize := by
  have hchunk : 0 < chunkSize.val := chunkSize.property
  fun_induction batchesFrom step grain chunkSize carry first with
  | case1 carry first hlt sums ih =>
      have hsums : sums = (⟨carry, grain - first⟩ : Walk α).batch step chunkSize :=
        runningSums_increments _ _
      have hleft : grain - (first + chunkSize.val) =
          grain - first - min chunkSize.val (grain - first) := by omega
      obtain ⟨count, hcount⟩ : ∃ count, min chunkSize.val (grain - first) = count + 1 :=
        ⟨min chunkSize.val (grain - first) - 1, by omega⟩
      have hcarry : (sums.getLast?.map (· + step)).getD carry =
          advance step (min chunkSize.val (grain - first)) carry := by
        rw [hsums, batch, batchLength, hcount, getLast?_starts, Option.getD_some]
      have hne : (⟨carry, grain - first⟩ : Walk α).left ≠ 0 := Nat.sub_ne_zero_of_lt hlt
      rw [ih, batches_of_left hne, hcarry, hleft, hsums]
      rfl
  | case2 carry first hnone =>
      rw [batches_of_done (Nat.sub_eq_zero_of_le (Nat.le_of_not_lt hnone))]

theorem starts_eq_iterate (count : Nat) (x : α) :
    starts step count x = List.iterate (· + step) x count := by
  induction count generalizing x with
  | zero => rfl
  | succ count ih => rw [starts, ih, List.iterate]

theorem batchesOf_count (first : α) (grain chunkSize : Count) :
    batchesOf first step grain.val chunkSize.val =
      .ok ((⟨first, grain.val⟩ : Walk α).batches step chunkSize) := by
  have hchunk := chunkSize.property
  rw [batchesOf, if_neg (by omega), Settings.toCount?_count]
  rfl

theorem length_batch (w : Walk α) (chunkSize : Count) :
    (w.batch step chunkSize).length = min chunkSize.val w.left :=
  length_starts _ _

theorem length_le_of_mem_batches {w : Walk α} {chunkSize : Count} {starts : List α}
    (h : starts ∈ w.batches step chunkSize) : starts.length ≤ chunkSize.val := by
  fun_induction batches w step chunkSize with
  | case1 => cases h
  | case2 w hleft _ ih =>
      obtain rfl | hrest := List.mem_cons.1 h
      · rw [length_batch]
        exact Nat.min_le_left _ _
      · exact ih hrest

theorem length_of_mem_dropLast {w : Walk α} {chunkSize : Count} {starts : List α}
    (h : starts ∈ (w.batches step chunkSize).dropLast) : starts.length = chunkSize.val := by
  fun_induction batches w step chunkSize with
  | case1 => cases h
  | case2 w hleft _ ih =>
      by_cases hdone : (w.rest step chunkSize).left = 0
      · rw [batches_of_done hdone] at h
        cases h
      · have hmore : (w.rest step chunkSize).batches step chunkSize ≠ [] := by
          rw [batches_of_left hdone]
          exact List.cons_ne_nil _ _
        rw [List.dropLast_cons_of_ne_nil hmore] at h
        obtain rfl | hrest := List.mem_cons.1 h
        · have hrest : w.left - min chunkSize.val w.left ≠ 0 := hdone
          rw [length_batch]
          omega
        · exact ih hrest

end Walk

namespace BatchEvent

def points : BatchEvent α → List α
  | checked .. => []
  | evaluated _ points => points

def evaluatedPoints (course : List (BatchEvent α)) : List α := course.flatMap points

omit [Scalar α] in
theorem evaluatedPoints_append (first second : List (BatchEvent α)) :
    evaluatedPoints (first ++ second) = evaluatedPoints first ++ evaluatedPoints second :=
  List.flatMap_append

end BatchEvent

namespace Sampling

variable {s : Sampling α} {starts : List α} {total sum : α}

theorem points_addBatch (s : Sampling α) (starts : List α) (total : α) :
    (s.addBatch starts total).points = (s.values starts).points := rfl

theorem points_addBatch_of_ok (h : (s.addBatch starts total).result = .ok sum) :
    (s.addBatch starts total).points = (s.points starts).values := by
  obtain ⟨found, hvalues, -⟩ := map_eq_ok_iff.1 h
  rw [points_addBatch, values]
  cases hgrid : ((s.evaluateGrid (s.points starts)).map Grid.values).result with
  | error fault =>
      -- Going through the points again never ends with values.
      rw [values, Evaluated.result_handle, hgrid] at hvalues
      have hreplay := (s.result_replay fault (s.points starts).values).symm.trans hvalues
      cases hall : (s.points starts).values.mapM s.tree.evaluate with
      | error found => rw [hall] at hreplay; cases hreplay
      | ok found => rw [hall] at hreplay; cases hreplay
  | ok found =>
      rw [Evaluated.handle_of_ok hgrid]
      rfl

/-- A lone worker that has come to a value has evaluated at the points of every batch, in order. -/
theorem evaluatedPoints_recordInOrder {step : α} {chunkSize : Count} {w : Walk α} {passes : Passes}
    {added : Nat} (h : (s.recordInOrder step chunkSize w passes added total).2.result = .ok sum) :
    evaluatedPoints (s.recordInOrder step chunkSize w passes added total).1 =
      (w.batches step chunkSize).flatMap fun starts => (s.points starts).values := by
  fun_induction recordInOrder s step chunkSize w passes added total with
  | case1 w passes added total hzero =>
      rw [Walk.batches_of_done hzero]
      rfl
  | case2 => cases h
  | case3 w passes added total hne starts hallows next hbatch _ others ih =>
      rw [Walk.batches_of_left hne, List.flatMap_cons, ← points_addBatch_of_ok hbatch, ← ih h]
      rfl
  | case4 => cases h

end Sampling

namespace PoolPlan

variable {plan : PoolPlan α}

theorem result_addBatch_of_addAll {batches : List (List α)} {total sum : α}
    (h : plan.addAll batches total = .ok sum) :
    ∀ starts ∈ batches, ∃ part,
      (plan.sampling.addBatch starts (Scalar.ofInt 0)).result = .ok part := by
  induction batches generalizing total with
  | nil => exact nofun
  | cons first rest ih =>
      obtain ⟨next, hfirst, hrest⟩ := bind_eq_ok_iff.1 h
      obtain ⟨part, hpart, -⟩ := map_eq_ok_iff.1 hfirst
      refine List.forall_mem_cons.2 ⟨?_, ih hrest⟩
      rw [batchSum] at hpart
      cases hresult : (plan.sampling.addBatch first (Scalar.ofInt 0)).result with
      | error fault =>
          rw [hresult] at hpart
          cases hpart
      | ok found => exact ⟨found, rfl⟩

end PoolPlan

namespace Pool

variable {plan : PoolPlan α}

theorem points_eventsOf (p : Pool α) (move : Move) : evaluatedPoints (p.eventsOf plan move) =
    (evaluations (p.eventsOf plan move)).flatMap fun starts =>
      (plan.sampling.addBatch starts (Scalar.ofInt 0)).points := by
  cases move with
  | submit | take | collect | cancel => rfl
  | check flight =>
      rw [eventsOf]
      split <;> rfl
  | finish flight =>
      rw [eventsOf]
      split
      · rfl
      · rfl

theorem evaluatedPoints_course {p last : Pool α} {schedule : List Move}
    (hrun : p.run? plan schedule = some last) : evaluatedPoints (p.course plan schedule) =
      (evaluations (p.course plan schedule)).flatMap fun starts =>
        (plan.sampling.addBatch starts (Scalar.ofInt 0)).points := by
  refine run_keeps (fun events _ => evaluatedPoints events = (evaluations events).flatMap fun starts =>
    (plan.sampling.addBatch starts (Scalar.ofInt 0)).points) ?_ [] rfl hrun
  intro events p q move _ hkept _
  rw [evaluatedPoints_append, evaluations_append, List.flatMap_append, hkept, points_eventsOf]

end Pool

namespace Tree

omit [Scalar α] in
theorem ceil_div (grain : Nat) {chunk : Nat} (hchunk : 0 < chunk) :
    ⌈(grain / chunk : ℚ)⌉ = ((grain + chunk - 1) / chunk : Nat) := by
  have hpos : (0 : ℚ) < chunk := by exact_mod_cast hchunk
  have hsplit := Nat.div_mul_le_self (grain + chunk - 1) chunk
  have hmore := Nat.lt_div_mul_add hchunk (a := grain + chunk - 1)
  generalize (grain + chunk - 1) / chunk = count at hsplit hmore
  have hbelow : count * chunk < grain + chunk := by omega
  have habove : grain ≤ count * chunk := by omega
  rw [Int.ceil_eq_iff, lt_div_iff₀ hpos, div_le_iff₀ hpos, Int.cast_natCast, sub_mul, one_mul,
    sub_lt_iff_lt_add]
  exact ⟨by exact_mod_cast hbelow, by exact_mod_cast habove⟩

variable {t : Tree α} {lower upper : α} {c : Configuration} {passes : Passes}
  {course : List (BatchEvent α)}

/-- A pool that has come to a value has evaluated at the points of every batch. -/
theorem evaluatedPoints_pooled {schedule : List Move} {last : Pool α} {sum : α}
    (hrun : (Pool.begin ⟨lower, c.grain.val⟩ passes).run? (t.poolPlan lower upper c) schedule =
      some last) (houtcome : last.outcome = some (.ok sum)) :
    (evaluatedPoints ((Pool.begin ⟨lower, c.grain.val⟩ passes).course (t.poolPlan lower upper c)
      schedule)).Perm ((batches lower upper c).flatMap fun starts =>
        ((t.sampling lower upper c).points starts).values) := by
  have hperm := (Pool.accounts_run hrun).evaluations_perm houtcome
  have hsum := (Pool.leads_run hrun).outcome _ houtcome
  obtain hsum | ⟨_, -, ⟨⟩⟩ := hsum
  have hresults := PoolPlan.result_addBatch_of_addAll hsum.symm
  rw [Pool.evaluatedPoints_course hrun]
  refine .trans (.of_eq (List.flatMap_congr fun starts hmem => ?_)) (hperm.flatMap_right _)
  obtain ⟨part, hpart⟩ := hresults starts (hperm.subset hmem)
  exact Sampling.points_addBatch_of_ok hpart

theorem Integrates.evaluatedPoints_perm {value : α}
    (h : t.Integrates lower upper c passes course (.ok value)) :
    (evaluatedPoints course).Perm (samplePoints lower upper c) := by
  rw [samplePoints_eq_points t]
  generalize hresult : (.ok value : Except IntegrationFault α) = result at h
  cases h with
  | alone halone =>
      obtain ⟨sum, hsum, -⟩ := map_eq_ok_iff.1 hresult.symm
      exact .of_eq (Sampling.evaluatedPoints_recordInOrder hsum)
  | pooled hpooled hrun houtcome =>
      obtain ⟨sum, rfl, -⟩ := map_eq_ok_iff.1 hresult.symm
      exact evaluatedPoints_pooled hrun houtcome

/-- The batches as running sums, for all counts of sub-intervals and lengths of batches. Put one
after another they are the starts of the loop that adds one step after another; there are as many
as the quotient of both counts rounded up, which is the count of batches that is announced; none is
empty, none is too long, and all but the last are full. So where an integration comes to a value,
however the walk was cut and the workers took turns, it has evaluated at the points of the
sub-intervals of the loop, each once, and they are as many as the configuration tells. -/
theorem batches_by_running_sums (t : Tree α) (lower upper : α) (c : Configuration) :
    (∀ first step : α, ∃ batches,
      Walk.batchesOf first step c.grain.val c.chunkSize.val = .ok batches ∧
      batches = Walk.batchesFrom step c.grain.val c.chunkSize first 0 ∧
      batches.flatten = List.iterate (· + step) first c.grain.val ∧
      (batches.length : Int) = ⌈(c.grain.val / c.chunkSize.val : ℚ)⌉ ∧
      batches.length = c.batchCount ∧
      (∀ starts ∈ batches, starts ≠ [] ∧ starts.length ≤ c.chunkSize.val) ∧
      ∀ starts ∈ batches.dropLast, starts.length = c.chunkSize.val) ∧
    ∀ passes course value, t.Integrates lower upper c passes course (.ok value) →
      let step := (Step.between lower upper c.grain.val).width
      (evaluatedPoints course).Perm
        ((List.iterate (· + step) lower c.grain.val).flatMap fun x =>
          (c.order.offsets (c.order.scale step).delta).map (x + ·)) ∧
      (evaluatedPoints course).length = c.evaluations ∧
      c.evaluations = c.grain.val * (c.order.val + 1) := by
  constructor
  · intro first step
    have hlength := Walk.length_batches ⟨first, c.grain.val⟩ step c.chunkSize
    have hfrom := Walk.batchesFrom_eq step c.grain.val c.chunkSize first 0
    refine ⟨_, Walk.batchesOf_count first c.grain c.chunkSize, hfrom.symm, ?_, ?_, hlength, ?_,
      fun _ => Walk.length_of_mem_dropLast⟩
    · rw [Walk.flatten_batches, Walk.starts_eq_iterate]
    · rw [ceil_div c.grain.val c.chunkSize.property, hlength]
    · intro starts hmem
      exact ⟨Walk.ne_nil_of_mem_batches hmem, Walk.length_le_of_mem_batches hmem⟩
  · intro passes course value h step
    have hperm := h.evaluatedPoints_perm
    refine ⟨?_, hperm.length_eq.trans length_samplePoints, rfl⟩
    rw [← Walk.starts_eq_iterate, ← samplePoints_eq]
    exact hperm

omit [Scalar α] in
/-- The cube on seven sub-intervals in batches of three, with two workers: three batches, and twenty
one points. -/
theorem batches_by_running_sums_cube :
    letI := Elementary.zero
    let c : Configuration := ⟨2, ⟨7, by decide⟩, ⟨3, by decide⟩, ⟨2, by decide⟩⟩
    ∃ course value, cube.Integrates 0 7 c .unlimited course (.ok value) ∧
      (evaluatedPoints course).length = 21 := by
  let _ := Elementary.zero
  intro c
  have hvalues : ∀ x, cube.evaluate x = .ok (cube.polynomial.eval x) := fun x =>
    foldFrom_eval isPolynomial_cube x cube.size_pos
  have hloop : ∃ value, cube.loopIntegral c.order 0 7 c.grain = .ok value :=
    ⟨_, loopIntegral_eq_compositeSum Scalar.addsExactly_rational
      (f := fun x => cube.polynomial.eval x) fun _ _ _ _ => hvalues _⟩
  obtain ⟨value, hvalue⟩ := hloop
  have hresult : (cube.integrate 0 7 c .unlimited).result = .ok value := by
    rw [result_integrate_of_addsExactly Scalar.addsExactly_rational isPolynomial_cube.powersAgree
      rfl, hvalue]
    rfl
  obtain ⟨course, hcourse⟩ := cube.exists_integrates 0 7 c .unlimited rfl
  rw [hresult] at hcourse
  exact ⟨course, _, hcourse, ((batches_by_running_sums cube 0 7 c).2 _ _ _ hcourse).2.1⟩

end Tree

end PrefixIntegral
