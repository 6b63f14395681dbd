import PrefixIntegral.Quadrature.Pool

namespace PrefixIntegral

theorem exists_append_of_getElem? {β : Type} {items : List β} {place : Nat} {item : β}
    (h : items[place]? = some item) : ∃ before after, items = before ++ item :: after ∧
      before.length = place ∧ ∀ new, items.set place new = before ++ new :: after := by
  obtain ⟨hlt, rfl⟩ := List.getElem?_eq_some_iff.1 h
  refine ⟨items.take place, items.drop (place + 1), ?_, List.length_take_of_le (Nat.le_of_lt hlt), fun new => ?_⟩
  · rw [List.getElem_cons_drop, List.take_append_drop]
  · rw [List.set_eq_take_append_cons_drop, if_pos hlt]

namespace Pool

variable {α : Type}

/-- What is taken is the oldest batch in the queue, with those before and after it left as they
are. -/
theorem takeOldest_eq_some {flights result : List (Flight α)} (h : takeOldest flights = some result) :
    ∃ before starts after, flights = before ++ .queued starts :: after ∧
      result = before ++ .held starts :: after := by
  fun_induction takeOldest flights generalizing result with
  | case1 => cases h
  | case2 starts rest =>
      cases h
      exact ⟨[], starts, rest, rfl, rfl⟩
  | case3 flight rest hqueued ih =>
      obtain ⟨others, hothers, rfl⟩ := Option.map_eq_some_iff.1 h
      obtain ⟨before, starts, after, rfl, rfl⟩ := ih hothers
      exact ⟨flight :: before, starts, after, rfl, rfl⟩

theorem takeOldest_isSome {flights : List (Flight α)} (h : flights.any Flight.isQueued) :
    (takeOldest flights).isSome := by
  fun_induction takeOldest flights with
  | case1 => cases h
  | case2 starts rest => rfl
  | case3 flight rest hqueued ih =>
      rw [Option.isSome_map]
      refine ih ?_
      cases flight with
      | queued starts => exact absurd rfl (hqueued starts)
      | held starts | running starts | done found => exact h

variable {p q : Pool α}

theorem check?_eq_some {flight : Nat} (h : p.check? flight = some q) :
    ∃ before starts after, p.flights = before ++ .held starts :: after ∧
      before.length = flight ∧
      q = { p with
        flights := before ++ .checked p.passes starts :: after
        passes := p.passes.next } := by
  unfold check? at h
  split at h
  · rename_i starts hflight
    obtain ⟨before, after, hflights, hlength, hset⟩ := exists_append_of_getElem? hflight
    cases h
    exact ⟨before, starts, after, hflights, hlength, by rw [hset]⟩
  · cases h

theorem check?_isSome {flight : Nat} (h : p.flights.findIdx? Flight.isHeld = some flight) :
    (p.check? flight).isSome := by
  obtain ⟨hlt, hheld, -⟩ := List.findIdx?_eq_some_iff_getElem.1 h
  rw [check?, List.getElem?_eq_getElem hlt]
  cases hflight : p.flights[flight] with
  | held starts => rfl
  | queued starts | running starts | done found =>
      rw [hflight] at hheld
      cases hheld

variable [Scalar α] {plan : PoolPlan α}

theorem submit?_eq_some (h : p.submit? plan = some q) :
    p.outcome = none ∧ p.walk.left ≠ 0 ∧ p.flights.length < plan.window ∧
      q = { p with
        walk := p.walk.rest plan.step plan.chunkSize
        flights := p.flights ++ [.queued (p.walk.batch plan.step plan.chunkSize)] } := by
  unfold submit? at h
  split at h
  · rename_i hguard
    cases h
    simp only [Bool.and_eq_true, Option.isNone_iff_eq_none, bne_iff_ne, ne_eq,
      decide_eq_true_eq] at hguard
    exact ⟨hguard.1.1, hguard.1.2, hguard.2, rfl⟩
  · cases h

theorem take?_eq_some (h : p.take? plan = some q) :
    ∃ before starts after, p.flights = before ++ .queued starts :: after ∧
      q = { p with flights := before ++ .held starts :: after } := by
  unfold take? at h
  split at h
  · obtain ⟨flights, hflights, rfl⟩ := Option.map_eq_some_iff.1 h
    obtain ⟨before, starts, after, hwhole, rfl⟩ := takeOldest_eq_some hflights
    exact ⟨before, starts, after, hwhole, rfl⟩
  · cases h

theorem finish?_eq_some {flight : Nat} (h : p.finish? plan flight = some q) :
    ∃ before starts after, p.flights = before ++ .running starts :: after ∧
      before.length = flight ∧
      q = { p with flights := before ++ .done (plan.batchSum starts) :: after } := by
  unfold finish? at h
  split at h
  · rename_i starts hflight
    obtain ⟨before, after, hflights, hlength, hset⟩ := exists_append_of_getElem? hflight
    cases h
    exact ⟨before, starts, after, hflights, hlength, by rw [hset]⟩
  · cases h

theorem collect?_eq_some (h : p.collect? plan = some q) :
    p.outcome = none ∧ ∃ result rest, p.flights = .done result :: rest ∧
      q = match result with
        | .error fault => { p with flights := rest, outcome := some (.error fault) }
        | .ok sum => { p with
            flights := rest
            collected := p.collected + 1
            total := p.total + sum
            outcome := if p.walk.left == 0 && rest.isEmpty then some (.ok (p.total + sum))
              else none } := by
  unfold collect? at h
  split at h
  · rename_i hguard
    simp only [Bool.and_eq_true, Option.isNone_iff_eq_none] at hguard
    split at h
    · rename_i fault rest hflights
      cases h
      exact ⟨hguard.1, .error fault, rest, hflights, rfl⟩
    · rename_i sum rest hflights
      cases h
      exact ⟨hguard.1, .ok sum, rest, hflights, rfl⟩
    · cases h
  · cases h

theorem submit?_isSome (hopen : p.outcome = none)
    (hroom : ¬(p.walk.left == 0 || plan.window ≤ p.flights.length) = true) :
    (p.submit? plan).isSome := by
  simp only [Bool.or_eq_true, beq_iff_eq, decide_eq_true_eq, not_or] at hroom
  rw [submit?, if_pos]
  · rfl
  · simp only [hopen, Option.isNone_none, Bool.and_eq_true, bne_iff_ne, ne_eq, true_and,
      decide_eq_true_eq]
    omega

theorem finish?_isSome {flight : Nat} (h : p.flights.findIdx? Flight.isRunning = some flight) :
    (p.finish? plan flight).isSome := by
  obtain ⟨hlt, hrunning, -⟩ := List.findIdx?_eq_some_iff_getElem.1 h
  rw [finish?, List.getElem?_eq_getElem hlt]
  cases hflight : p.flights[flight] with
  | running starts => rfl
  | queued starts | held starts | done found =>
      rw [hflight] at hrunning
      cases hrunning

theorem take?_isSome (hidle : ∀ flight ∈ p.flights, flight.isBusy = false)
    (hqueued : p.flights.any Flight.isQueued) : (p.take? plan).isSome := by
  have hworkers : 0 < plan.workers.val := plan.workers.property
  have hnone : p.flights.countP Flight.isBusy = 0 :=
    List.countP_eq_zero.2 fun flight hmem => by simp [hidle flight hmem]
  rw [take?, hnone, if_pos hworkers, Option.isSome_map]
  exact takeOldest_isSome hqueued

theorem collect?_isSome (hidle : ∀ flight ∈ p.flights, flight.isBusy = false)
    (hqueued : ¬p.flights.any Flight.isQueued) (hne : p.flights ≠ []) (hopen : p.outcome = none)
    (hready : (p.walk.left == 0 || plan.window ≤ p.flights.length) = true) :
    (p.collect? plan).isSome := by
  rw [collect?, if_pos (by rw [hopen, hready]; rfl)]
  cases hflights : p.flights with
  | nil => exact absurd hflights hne
  | cons flight rest =>
      rw [hflights] at hidle hqueued
      cases flight with
      | queued starts => exact absurd rfl hqueued
      | held starts | running starts => cases hidle _ List.mem_cons_self
      | done found => cases found <;> rfl

theorem passes_move? {move : Move} (h : p.move? plan move = some q) :
    q.passes = match move with
      | .check _ => p.passes.next
      | .cancel => .exhausted
      | .submit | .take | .finish _ | .collect => p.passes := by
  cases move with
  | submit =>
      obtain ⟨-, -, -, rfl⟩ := submit?_eq_some h
      rfl
  | take =>
      obtain ⟨_, _, _, -, rfl⟩ := take?_eq_some h
      rfl
  | check flight =>
      obtain ⟨_, _, _, -, -, rfl⟩ := check?_eq_some h
      rfl
  | finish flight =>
      obtain ⟨_, _, _, -, -, rfl⟩ := finish?_eq_some h
      rfl
  | collect =>
      obtain ⟨-, found, rest, -, rfl⟩ := collect?_eq_some h
      cases found <;> rfl
  | cancel =>
      cases h
      rfl

end Pool

/-- What happens to a batch: the check before it, with what it finds, and its evaluation, with the
points at which it is made. -/
inductive BatchEvent (α : Type) where
  | checked (starts : List α) (passed : Bool)
  | evaluated (starts points : List α)

namespace Pool

variable {α : Type} [Scalar α] {plan : PoolPlan α} {p q : Pool α}

def eventsOf (plan : PoolPlan α) (p : Pool α) : Move → List (BatchEvent α)
  | .check flight =>
    match p.flights[flight]? with
    | some (.held starts) => [.checked starts p.passes.allows]
    | _ => []
  | .finish flight =>
    match p.flights[flight]? with
    | some (.running starts) =>
      [.evaluated starts (plan.sampling.addBatch starts (Scalar.ofInt 0)).points]
    | _ => []
  | .submit | .take | .collect | .cancel => []

theorem eventsOf_check {before after : List (Flight α)} {starts : List α}
    (hflights : p.flights = before ++ .held starts :: after) :
    p.eventsOf plan (.check before.length) = [.checked starts p.passes.allows] := by
  have hflight : p.flights[before.length]? = some (.held starts) := by simp [hflights]
  rw [eventsOf, hflight]

theorem eventsOf_finish {before after : List (Flight α)} {starts : List α}
    (hflights : p.flights = before ++ .running starts :: after) :
    p.eventsOf plan (.finish before.length) =
      [.evaluated starts (plan.sampling.addBatch starts (Scalar.ofInt 0)).points] := by
  have hflight : p.flights[before.length]? = some (.running starts) := by simp [hflights]
  rw [eventsOf, hflight]

def tale {β : Type} (tell : Pool α → Move → List β) (plan : PoolPlan α) (p : Pool α) :
    List Move → List β
  | [] => []
  | move :: rest =>
    tell p move ++ ((p.move? plan move).map fun next => next.tale tell plan rest).getD []

def course (plan : PoolPlan α) (p : Pool α) (schedule : List Move) : List (BatchEvent α) :=
  p.tale (eventsOf plan) plan schedule

/-- What each move of a schedule keeps, of the state and what has been told before, the whole
schedule keeps. -/
theorem tale_keeps {β : Type} {tell : Pool α → Move → List β} (kept : List β → Pool α → Prop)
    {schedule : List Move}
    (hstep : ∀ told p q, ∀ move ∈ schedule, kept told p → p.move? plan move = some q →
      kept (told ++ tell p move) q)
    (told : List β) (h : kept told p) (hrun : p.run? plan schedule = some q) :
    kept (told ++ p.tale tell plan schedule) q := by
  induction schedule generalizing p told with
  | nil =>
      cases hrun
      rw [tale, List.append_nil]
      exact h
  | cons move rest ih =>
      obtain ⟨next, hnext, hrest⟩ := Option.bind_eq_some_iff.1 hrun
      have hkept := hstep told p next move List.mem_cons_self h hnext
      have hlast := ih (fun told p q move hmem => hstep told p q move (.tail _ hmem)) _ hkept hrest
      rw [tale, hnext, Option.map_some, Option.getD_some, ← List.append_assoc]
      exact hlast

/-- What each move of a schedule keeps, of the state and what has happened before, the whole
schedule keeps. -/
theorem run_keeps (kept : List (BatchEvent α) → Pool α → Prop) {schedule : List Move}
    (hstep : ∀ events p q, ∀ move ∈ schedule, kept events p → p.move? plan move = some q →
      kept (events ++ p.eventsOf plan move) q)
    (events : List (BatchEvent α)) (h : kept events p) (hrun : p.run? plan schedule = some q) :
    kept (events ++ p.course plan schedule) q :=
  tale_keeps kept hstep events h hrun

end Pool

end PrefixIntegral
