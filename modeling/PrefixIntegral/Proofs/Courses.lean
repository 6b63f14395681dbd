import PrefixIntegral.Proofs.Schedule

/-!
The course of a pool that may be cancelled: which batches it checks, what the checks find, and what
it evaluates. Batches are checked once and evaluated once, in whatever order the workers come to it, and where
one is refused there is no value.
-/

namespace PrefixIntegral

variable {α : Type}

namespace BatchEvent

def check? : BatchEvent α → Option (List α × Bool)
  | checked starts passed => some (starts, passed)
  | evaluated .. => none

def evaluation? : BatchEvent α → Option (List α)
  | checked .. => none
  | evaluated starts _ => some starts

/-- The checks in a course, in the order in which they are made. -/
def checks (course : List (BatchEvent α)) : List (List α × Bool) := course.filterMap check?

/-- The batches that are evaluated in a course. -/
def evaluations (course : List (BatchEvent α)) : List (List α) := course.filterMap evaluation?

/-- The batches that have been checked in a course and not refused. -/
def passed (course : List (BatchEvent α)) : List (List α) :=
  ((checks course).filter Prod.snd).map Prod.fst

@[simp] theorem checks_checked (starts : List α) (passed : Bool) :
    checks [.checked starts passed] = [(starts, passed)] := rfl

@[simp] theorem checks_evaluated (starts points : List α) :
    checks [.evaluated starts points] = [] := rfl

@[simp] theorem evaluations_checked (starts : List α) (passed : Bool) :
    evaluations [.checked starts passed] = [] := rfl

@[simp] theorem evaluations_evaluated (starts points : List α) :
    evaluations [.evaluated starts points] = [starts] := rfl

@[simp] theorem checks_append (first second : List (BatchEvent α)) :
    checks (first ++ second) = checks first ++ checks second :=
  List.filterMap_append

@[simp] theorem evaluations_append (first second : List (BatchEvent α)) :
    evaluations (first ++ second) = evaluations first ++ evaluations second :=
  List.filterMap_append

@[simp] theorem passed_append (first second : List (BatchEvent α)) :
    passed (first ++ second) = passed first ++ passed second := by
  simp [passed]

@[simp] theorem passed_checked (starts : List α) (allows : Bool) :
    passed [.checked starts allows] = if allows then [starts] else [] := by
  cases allows <;> rfl

@[simp] theorem passed_evaluated (starts points : List α) :
    passed [.evaluated starts points] = [] := rfl

/-- Some check in a course refuses a batch. -/
def Refuses (course : List (BatchEvent α)) : Prop := ∃ starts, (starts, false) ∈ checks course

theorem refuses_append_checked {course : List (BatchEvent α)} {starts : List α} {passed : Bool} :
    Refuses (course ++ [.checked starts passed]) ↔ Refuses course ∨ passed = false := by
  simp only [Refuses, checks_append, checks_checked, List.mem_append, List.mem_singleton,
    Prod.mk.injEq, exists_or, exists_eq_left, eq_comm (a := false)]

theorem refuses_append_evaluated {course : List (BatchEvent α)} {starts points : List α} :
    Refuses (course ++ [.evaluated starts points]) ↔ Refuses course := by
  simp only [Refuses, checks_append, checks_evaluated, List.append_nil]

theorem checks_of_not_refuses {course : List (BatchEvent α)} (h : ¬Refuses course) :
    checks course = ((checks course).map Prod.fst).map (·, true) := by
  rw [List.map_map]
  refine (List.map_id _).symm.trans (List.map_congr_left ?_)
  rintro ⟨starts, passed⟩ hmem
  cases passed with
  | true => rfl
  | false => exact absurd ⟨starts, hmem⟩ h

theorem passed_of_not_refuses {course : List (BatchEvent α)} (h : ¬Refuses course) :
    passed course = (checks course).map Prod.fst := by
  have hall : (checks course).filter Prod.snd = checks course := by
    rw [List.filter_eq_self]
    rintro ⟨starts, passed⟩ hmem
    cases passed with
    | true => rfl
    | false => exact absurd ⟨starts, hmem⟩ h
  rw [passed, hall]

end BatchEvent

open BatchEvent

namespace Flight

def unchecked? : Flight α → Option (List α)
  | queued starts | held starts => some starts
  | running _ | done _ => none

def running? : Flight α → Option (List α)
  | running starts => some starts
  | queued _ | held _ | done _ => none

theorem unchecked?_checked (passes : Passes) (starts : List α) :
    (checked passes starts).unchecked? = none := by
  unfold checked
  split <;> rfl

theorem running?_checked (passes : Passes) (starts : List α) :
    (checked passes starts).running? = if passes.allows then some starts else none := by
  unfold checked
  split <;> rfl

end Flight

theorem perm_concat_middle {β : Type} (item : β) (first second third : List β) :
    (first ++ [item] ++ (second ++ third)).Perm (first ++ (second ++ item :: third)) := by
  rw [List.append_assoc, List.singleton_append]
  exact List.perm_middle.symm.append_left first

namespace Pool

variable [Scalar α] {plan : PoolPlan α} {p q : Pool α} {batches : List (List α)}
  {events : List (BatchEvent α)}

/-- What has happened in a pool so far: every batch has been checked once, or is still to be; every
batch that has passed has been evaluated once, or is still to be; one that is refused stays in
flight, and there is no value if there is one. -/
structure Accounts (plan : PoolPlan α) (batches : List (List α)) (events : List (BatchEvent α))
    (p : Pool α) : Prop where
  checks : ((checks events).map Prod.fst ++ (p.flights.filterMap Flight.unchecked? ++
    p.walk.batches plan.step plan.chunkSize)).Perm batches
  evaluations : (evaluations events ++ p.flights.filterMap Flight.running?).Perm (passed events)
  refused : Refuses events → p.outcome = none → .done (.error .cancelled) ∈ p.flights
  value : ∀ sum, p.outcome = some (.ok sum) →
    ¬Refuses events ∧ p.flights = [] ∧ p.walk.left = 0

theorem accounts_begin (walk : Walk α) (passes : Passes) :
    (begin walk passes).Accounts plan (walk.batches plan.step plan.chunkSize) [] :=
  ⟨.refl _, .refl _, fun ⟨_, hmem⟩ => absurd hmem List.not_mem_nil, nofun⟩

namespace Accounts

theorem refused_replace {before after : List (Flight α)} {old new : Flight α}
    (h : p.Accounts plan batches events) (hflights : p.flights = before ++ old :: after)
    (hold : old ≠ .done (.error .cancelled)) (hrefused : Refuses events)
    (hopen : p.outcome = none) : .done (.error .cancelled) ∈ before ++ new :: after := by
  have hmem := h.refused hrefused hopen
  rw [hflights, List.mem_append, List.mem_cons] at hmem
  obtain hbefore | hsame | hafter := hmem
  · exact List.mem_append_left _ hbefore
  · exact absurd hsame.symm hold
  · exact List.mem_append_right _ (.tail _ hafter)

theorem not_value {before after : List (Flight α)} {old : Flight α}
    (h : p.Accounts plan batches events) (hflights : p.flights = before ++ old :: after) (sum : α) :
    p.outcome ≠ some (.ok sum) := by
  intro hsum
  obtain ⟨-, hempty, -⟩ := h.value sum hsum
  simp [hflights] at hempty

theorem submit (h : p.Accounts plan batches events) (hmove : p.submit? plan = some q) :
    q.Accounts plan batches events := by
  obtain ⟨hopen, hleft, -, rfl⟩ := submit?_eq_some hmove
  refine ⟨?_, ?_, fun hrefused hopen => List.mem_append_left _ (h.refused hrefused hopen), ?_⟩
  · refine .trans (.of_eq ?_) h.checks
    rw [Walk.batches_of_left hleft, List.filterMap_append, List.append_assoc]
    rfl
  · refine .trans (.of_eq ?_) h.evaluations
    rw [List.filterMap_append]
    exact congrArg _ (List.append_nil _)
  · intro sum hsum
    cases hopen.symm.trans hsum

theorem take (h : p.Accounts plan batches events) (hmove : p.take? plan = some q) :
    q.Accounts plan batches events := by
  obtain ⟨before, starts, after, hflights, rfl⟩ := take?_eq_some hmove
  have hchecks := h.checks
  have hevaluations := h.evaluations
  rw [hflights, List.filterMap_append] at hchecks hevaluations
  refine ⟨?_, ?_, fun hr hopen => h.refused_replace hflights nofun hr hopen, ?_⟩
  · rw [List.filterMap_append]
    exact hchecks
  · rw [List.filterMap_append]
    exact hevaluations
  · exact fun sum hsum => absurd hsum (h.not_value hflights sum)

theorem check {flight : Nat} (h : p.Accounts plan batches events)
    (hmove : p.check? flight = some q) :
    q.Accounts plan batches (events ++ p.eventsOf plan (.check flight)) := by
  obtain ⟨before, starts, after, hflights, rfl, rfl⟩ := check?_eq_some hmove
  have hchecks := h.checks
  have hevaluations := h.evaluations
  rw [hflights, List.filterMap_append] at hchecks hevaluations
  rw [eventsOf_check hflights]
  refine ⟨?_, ?_, ?_, ?_⟩
  · rw [checks_append, checks_checked, List.map_append, List.filterMap_append,
      List.filterMap_cons_none (Flight.unchecked?_checked _ _),
      List.append_assoc (before.filterMap _)]
    rw [List.filterMap_cons_some (by rfl), List.append_assoc] at hchecks
    exact (perm_concat_middle starts _ _ _).trans hchecks
  · rw [evaluations_append, evaluations_checked, List.append_nil, passed_append, passed_checked,
      List.filterMap_append]
    rw [List.filterMap_cons_none (by rfl)] at hevaluations
    cases hallows : p.passes.allows with
    | false =>
        rw [List.filterMap_cons_none (by rw [Flight.running?_checked, hallows]; rfl)]
        simpa using hevaluations
    | true =>
        rw [List.filterMap_cons_some (by rw [Flight.running?_checked, hallows]; rfl), if_pos rfl]
        refine (perm_concat_middle starts _ _ _).symm.trans ?_
        refine .trans ?_ (hevaluations.append_right [starts])
        rw [List.append_assoc, List.append_assoc]
        exact List.perm_append_comm.append_left _
  · rw [refuses_append_checked]
    rintro (hrefused | hrefused) hopen
    · exact h.refused_replace hflights nofun hrefused hopen
    · rw [Flight.checked, if_neg (by simp [hrefused])]
      simp
  · exact fun sum hsum => absurd hsum (h.not_value hflights sum)

theorem finish {flight : Nat} (h : p.Accounts plan batches events)
    (hmove : p.finish? plan flight = some q) :
    q.Accounts plan batches (events ++ p.eventsOf plan (.finish flight)) := by
  obtain ⟨before, starts, after, hflights, rfl, rfl⟩ := finish?_eq_some hmove
  have hchecks := h.checks
  have hevaluations := h.evaluations
  rw [hflights, List.filterMap_append] at hchecks hevaluations
  rw [eventsOf_finish hflights]
  refine ⟨?_, ?_, ?_, ?_⟩
  · rw [checks_append, checks_evaluated, List.append_nil, List.filterMap_append]
    exact hchecks
  · rw [evaluations_append, evaluations_evaluated, passed_append, passed_evaluated, List.append_nil,
      List.filterMap_append, List.filterMap_cons_none (by rfl)]
    exact (perm_concat_middle starts _ _ _).trans hevaluations
  · rw [refuses_append_evaluated]
    exact h.refused_replace hflights nofun
  · exact fun sum hsum => absurd hsum (h.not_value hflights sum)

theorem collect (h : p.Accounts plan batches events) (hmove : p.collect? plan = some q) :
    q.Accounts plan batches events := by
  obtain ⟨hopen, found, rest, hflights, rfl⟩ := collect?_eq_some hmove
  have hchecks := h.checks
  have hevaluations := h.evaluations
  rw [hflights] at hchecks hevaluations
  cases found with
  | error fault => exact ⟨hchecks, hevaluations, nofun, nofun⟩
  | ok sum =>
      have hrefused : Refuses events → .done (.error .cancelled) ∈ rest := by
        intro hrefused
        have hmem := h.refused hrefused hopen
        rw [hflights] at hmem
        simpa using hmem
      refine ⟨hchecks, hevaluations, fun hr _ => hrefused hr, ?_⟩
      intro total htotal
      dsimp only at htotal
      split at htotal
      · rename_i hlast
        obtain ⟨hleft, hempty⟩ : p.walk.left = 0 ∧ rest = [] := by simpa using hlast
        refine ⟨fun hr => ?_, hempty, hleft⟩
        have := hrefused hr
        rw [hempty] at this
        cases this
      · cases htotal

theorem move {move : Move} (h : p.Accounts plan batches events)
    (hmove : p.move? plan move = some q) :
    q.Accounts plan batches (events ++ p.eventsOf plan move) := by
  cases move with
  | submit =>
      rw [eventsOf, List.append_nil]
      exact h.submit hmove
  | take =>
      rw [eventsOf, List.append_nil]
      exact h.take hmove
  | check flight => exact h.check hmove
  | finish flight => exact h.finish hmove
  | collect =>
      rw [eventsOf, List.append_nil]
      exact h.collect hmove
  | cancel =>
      cases hmove
      rw [eventsOf, List.append_nil]
      exact ⟨h.checks, h.evaluations, h.refused, h.value⟩

/-- A pool that has come to a value has checked every batch once, and every check passed. -/
theorem checks_perm (h : p.Accounts plan batches events) {sum : α}
    (hsum : p.outcome = some (.ok sum)) :
    (BatchEvent.checks events).Perm (batches.map (·, true)) := by
  obtain ⟨hrefused, hflights, hleft⟩ := h.value sum hsum
  have hchecks := h.checks
  rw [hflights, Walk.batches_of_done hleft, List.filterMap_nil, List.append_nil,
    List.append_nil] at hchecks
  rw [checks_of_not_refuses hrefused]
  exact hchecks.map _

/-- A pool that has come to a value has evaluated every batch once. -/
theorem evaluations_perm (h : p.Accounts plan batches events) {sum : α}
    (hsum : p.outcome = some (.ok sum)) : (BatchEvent.evaluations events).Perm batches := by
  obtain ⟨hrefused, hflights, hleft⟩ := h.value sum hsum
  have hchecks := h.checks
  have hevaluations := h.evaluations
  rw [hflights, Walk.batches_of_done hleft, List.filterMap_nil, List.append_nil,
    List.append_nil] at hchecks
  rw [hflights, List.filterMap_nil, List.append_nil, passed_of_not_refuses hrefused]
    at hevaluations
  exact hevaluations.trans hchecks

end Accounts

/-- A pool that was cancelled before it began: nothing runs, and what is done was refused. -/
structure Barred (p : Pool α) : Prop where
  passes : p.passes = .exhausted
  flights : ∀ flight ∈ p.flights,
    flight.unchecked?.isSome ∨ flight = .done (.error .cancelled)
  outcome : ∀ found, p.outcome = some found → found = .error .cancelled

namespace Barred

omit [Scalar α] in
theorem replace {before after : List (Flight α)} {old new : Flight α} (h : p.Barred)
    (hflights : p.flights = before ++ old :: after)
    (hnew : new.unchecked?.isSome ∨ new = .done (.error .cancelled)) :
    ∀ flight ∈ before ++ new :: after,
      flight.unchecked?.isSome ∨ flight = .done (.error .cancelled) := by
  have hall := h.flights
  rw [hflights, List.forall_mem_append, List.forall_mem_cons] at hall
  rw [List.forall_mem_append, List.forall_mem_cons]
  exact ⟨hall.1, hnew, hall.2.2⟩

omit [Scalar α] in
theorem not_running {before after : List (Flight α)} {starts : List α} (h : p.Barred) :
    p.flights ≠ before ++ .running starts :: after := by
  intro hflights
  obtain hqueued | hdone := h.flights (.running starts) (by simp [hflights])
  · cases hqueued
  · cases hdone

/-- A barred pool stays barred, and all that happens in it is that batches are refused. -/
theorem move {move : Move} (h : p.Barred) (hmove : p.move? plan move = some q) :
    q.Barred ∧ ∀ event ∈ p.eventsOf plan move, ∃ starts, event = .checked starts false := by
  have hpasses : q.passes = .exhausted := by
    rw [passes_move? hmove, h.passes]
    cases move <;> rfl
  cases move with
  | submit =>
      obtain ⟨-, -, -, rfl⟩ := submit?_eq_some hmove
      refine ⟨⟨hpasses, ?_, h.outcome⟩, nofun⟩
      rw [List.forall_mem_append, List.forall_mem_singleton]
      exact ⟨h.flights, .inl rfl⟩
  | take =>
      obtain ⟨before, starts, after, hflights, rfl⟩ := take?_eq_some hmove
      exact ⟨⟨hpasses, h.replace hflights (.inl rfl), h.outcome⟩, nofun⟩
  | check flight =>
      obtain ⟨before, starts, after, hflights, rfl, rfl⟩ := check?_eq_some hmove
      have hchecked : Flight.checked p.passes starts = .done (.error .cancelled) := by
        rw [h.passes]
        rfl
      have hevents : p.eventsOf plan (.check before.length) = [.checked starts false] := by
        rw [eventsOf_check hflights, h.passes]
        rfl
      rw [hevents, List.forall_mem_singleton]
      exact ⟨⟨hpasses, h.replace hflights (.inr hchecked), h.outcome⟩, starts, rfl⟩
  | finish flight =>
      obtain ⟨before, starts, after, hflights, -, -⟩ := finish?_eq_some hmove
      exact absurd hflights h.not_running
  | collect =>
      obtain ⟨-, found, rest, hflights, rfl⟩ := collect?_eq_some hmove
      have hall := h.flights
      rw [hflights, List.forall_mem_cons] at hall
      obtain ⟨hqueued | hfound, hrest⟩ := hall
      · cases hqueued
      cases hfound
      exact ⟨⟨hpasses, hrest, fun _ houtcome => (Option.some.inj houtcome).symm⟩, nofun⟩
  | cancel =>
      cases hmove
      exact ⟨⟨rfl, h.flights, h.outcome⟩, nofun⟩

end Barred

section Schedules

variable {walk : Walk α} {passes : Passes} {schedule : List Move} {last : Pool α}

/-- However a pool is cancelled, it comes to the sum of its batches or is cancelled. -/
theorem leads_run (hrun : (begin walk passes).run? plan schedule = some last) :
    last.Leads plan {.cancelled}
      (plan.addAll (walk.batches plan.step plan.chunkSize) (Scalar.ofInt 0)) :=
  run_keeps (fun _ => Leads plan {.cancelled} _)
    (fun _ _ _ _ _ hleads hmove => hleads.move (.inr rfl) hmove) [] (leads_begin rfl) hrun

theorem stocked_run (hleft : 0 < walk.left)
    (hrun : (begin walk passes).run? plan schedule = some last) : last.Stocked :=
  run_keeps (fun _ => Stocked) (fun _ _ _ _ _ hstocked hmove => hstocked.move hmove) []
    (stocked_begin hleft) hrun

theorem accounts_run (hrun : (begin walk passes).run? plan schedule = some last) :
    last.Accounts plan (walk.batches plan.step plan.chunkSize)
      ((begin walk passes).course plan schedule) :=
  run_keeps (Accounts plan _) (fun _ _ _ _ _ haccounts hmove => haccounts.move hmove) []
    (accounts_begin walk passes) hrun

/-- A pool that was cancelled before it began only refuses batches. -/
theorem barred_run (hrun : (begin walk .exhausted).run? plan schedule = some last) :
    last.Barred ∧ ∀ event ∈ (begin walk .exhausted).course plan schedule,
      ∃ starts, event = .checked starts false := by
  refine run_keeps (fun events p => p.Barred ∧ ∀ event ∈ events, ∃ starts,
    event = .checked starts false) (fun events p q move _ hkept hmove => ?_) [] ?_ hrun
  · obtain ⟨hbarred, hevents⟩ := hkept.1.move hmove
    exact ⟨hbarred, List.forall_mem_append.2 ⟨hkept.2, hevents⟩⟩
  · exact ⟨⟨rfl, nofun, nofun⟩, nofun⟩

end Schedules

end Pool

end PrefixIntegral
