import Mathlib.Algebra.GroupWithZero.Nat
import Mathlib.Data.List.Forall2
import Mathlib.Data.Set.Basic
import PrefixIntegral.Proofs.Moves
import PrefixIntegral.Proofs.PointLoop

/-!
Integration by several workers, whatever their schedule. A pool keeps what is left to add, in batch
order, from the sum that it has, unless it is stopped; each move takes one off the moves that are
left. So every schedule comes to an end, and, where nobody cancels, to the same one.
-/

namespace PrefixIntegral

variable {α : Type} [Scalar α]

namespace Walk

theorem length_batches (w : Walk α) (step : α) (chunkSize : Count) :
    (w.batches step chunkSize).length = (w.left + chunkSize.val - 1) / chunkSize.val := by
  have hchunk : 0 < chunkSize.val := chunkSize.property
  fun_induction batches w step chunkSize with
  | case1 w hzero =>
      rw [hzero, Nat.zero_add, Nat.div_eq_of_lt (Nat.sub_lt hchunk Nat.one_pos)]
      rfl
  | case2 w hne _ ih =>
      have hleft : (w.rest step chunkSize).left = w.left - min chunkSize.val w.left := rfl
      rw [List.length_cons, ih, hleft]
      obtain hle | hlt := Nat.le_total chunkSize.val w.left
      · have hsplit : w.left + chunkSize.val - 1 =
            w.left - min chunkSize.val w.left + chunkSize.val - 1 + chunkSize.val := by omega
        rw [hsplit, Nat.add_div_right _ hchunk]
      · have hnone : w.left - min chunkSize.val w.left + chunkSize.val - 1 < chunkSize.val := by
          omega
        have hsplit : w.left + chunkSize.val - 1 = w.left - 1 + chunkSize.val := by omega
        rw [Nat.div_eq_of_lt hnone, hsplit, Nat.add_div_right _ hchunk, Nat.div_eq_of_lt (by omega)]

theorem batches_of_done {w : Walk α} {step : α} {chunkSize : Count} (h : w.left = 0) :
    w.batches step chunkSize = [] := by
  rw [batches, dif_pos h]

theorem batches_of_left {w : Walk α} {step : α} {chunkSize : Count} (h : w.left ≠ 0) :
    w.batches step chunkSize =
      w.batch step chunkSize :: (w.rest step chunkSize).batches step chunkSize := by
  rw [batches, dif_neg h]

end Walk

namespace Sampling

/-- Adds the sums of batches to a sum, in order, each batch being summed by itself. -/
def addSums (s : Sampling α) (batches : List (List α)) (total : α) : Except EvaluationFault α :=
  batches.foldlM (fun total starts => (s.addBatch starts (Scalar.ofInt 0)).result.map (total + ·))
    total

end Sampling

namespace PoolPlan

def addAll (plan : PoolPlan α) (batches : List (List α)) (total : α) :
    Except IntegrationFault α :=
  batches.foldlM (fun total starts => (plan.batchSum starts).map (total + ·)) total

variable {plan : PoolPlan α}

theorem addAll_eq (batches : List (List α)) (total : α) :
    plan.addAll batches total = (plan.sampling.addSums batches total).mapError .evaluation := by
  induction batches generalizing total with
  | nil => rfl
  | cons starts rest ih =>
      rw [addAll, Sampling.addSums, List.foldlM_cons, List.foldlM_cons, batchSum]
      cases (plan.sampling.addBatch starts (Scalar.ofInt 0)).result with
      | error fault => rfl
      | ok sum => exact ih (total + sum)

end PoolPlan

/-- One item of a list that is related item by item to another can be put in the place of the old
one. -/
theorem forall₂_replace {β γ : Type} {related : β → γ → Prop} {old new : β} {before after : List β}
    {items : List γ} (hstep : ∀ item, related old item → related new item)
    (h : List.Forall₂ related (before ++ old :: after) items) :
    List.Forall₂ related (before ++ new :: after) items := by
  induction before generalizing items with
  | nil =>
      rcases h with _ | ⟨hold, hafter⟩
      exact .cons (hstep _ hold) hafter
  | cons first rest ih =>
      rcases h with _ | ⟨hfirst, hrest⟩
      exact .cons hfirst (ih hrest)

namespace Flight

inductive Carries (plan : PoolPlan α) : Flight α → List α → Prop
  | queued {starts : List α} : Carries plan (.queued starts) starts
  | held {starts : List α} : Carries plan (.held starts) starts
  | running {starts : List α} : Carries plan (.running starts) starts
  | done {starts : List α} : Carries plan (.done (plan.batchSum starts)) starts

def movesLeft : Flight α → Nat
  | queued _ => 4
  | held _ => 3
  | running _ => 2
  | done _ => 1

/-- What a batch of given starts is in flight, if it may also be done with one of the faults that
stop a pool. -/
def MayCarry (plan : PoolPlan α) (stops : Set IntegrationFault) (flight : Flight α)
    (starts : List α) : Prop :=
  Carries plan flight starts ∨ ∃ fault ∈ stops, flight = .done (.error fault)

theorem mayCarry_empty {plan : PoolPlan α} : MayCarry plan ∅ = Carries plan := by
  funext flight starts
  simp [MayCarry]

theorem MayCarry.take {plan : PoolPlan α} {stops : Set IntegrationFault} {starts others : List α}
    (h : MayCarry plan stops (.queued starts) others) : MayCarry plan stops (.held starts) others := by
  rcases h with hcarries | ⟨_, -, ⟨⟩⟩
  cases hcarries
  exact .inl .held

theorem MayCarry.check {plan : PoolPlan α} {stops : Set IntegrationFault} {passes : Passes}
    {starts others : List α} (hcheck : passes.allows ∨ .cancelled ∈ stops)
    (h : MayCarry plan stops (.held starts) others) :
    MayCarry plan stops (.checked passes starts) others := by
  rcases h with hcarries | ⟨_, -, ⟨⟩⟩
  cases hcarries
  unfold checked
  split
  · exact .inl .running
  · rename_i hrefused
    exact .inr ⟨.cancelled, hcheck.resolve_left hrefused, rfl⟩

theorem MayCarry.finish {plan : PoolPlan α} {stops : Set IntegrationFault} {starts others : List α}
    (h : MayCarry plan stops (.running starts) others) :
    MayCarry plan stops (.done (plan.batchSum starts)) others := by
  rcases h with hcarries | ⟨_, -, ⟨⟩⟩
  cases hcarries
  exact .inl .done

end Flight

namespace Pool

variable {plan : PoolPlan α} {stops : Set IntegrationFault} {p q : Pool α}
  {result : Except IntegrationFault α}

def movesLeft (plan : PoolPlan α) (p : Pool α) : Nat :=
  5 * (p.walk.batches plan.step plan.chunkSize).length + (p.flights.map Flight.movesLeft).sum

def Stocked (p : Pool α) : Prop := p.outcome = none → p.walk.left = 0 → p.flights ≠ []

/-- A pool on its way to a result, unless it is stopped: it has come to the result or been stopped,
or what is in flight and what is still to be submitted, added in this order to what it has, gives
the result. -/
structure Leads (plan : PoolPlan α) (stops : Set IntegrationFault)
    (result : Except IntegrationFault α) (p : Pool α) : Prop where
  outcome : ∀ found, p.outcome = some found → found = result ∨ ∃ fault ∈ stops, found = .error fault
  open_sum : p.outcome = none → ∃ inFlight,
    List.Forall₂ (Flight.MayCarry plan stops) p.flights inFlight ∧
      plan.addAll (inFlight ++ p.walk.batches plan.step plan.chunkSize) p.total = result

/-- A pool on its way to a result: it has come to it, or what is in flight and what is still to be
submitted, added in this order to what it has, gives it. -/
structure Heads (plan : PoolPlan α) (result : Except IntegrationFault α) (p : Pool α) : Prop where
  uncancelled : p.passes = .unlimited
  outcome : ∀ found, p.outcome = some found → found = result
  open_flights : p.outcome = none → p.walk.left = 0 → p.flights ≠ []
  open_sum : p.outcome = none → ∃ inFlight, List.Forall₂ (Flight.Carries plan) p.flights inFlight ∧
    plan.addAll (inFlight ++ p.walk.batches plan.step plan.chunkSize) p.total = result

theorem heads_iff : p.Heads plan result ↔
    p.passes = .unlimited ∧ p.Stocked ∧ p.Leads plan ∅ result := by
  constructor
  · intro h
    refine ⟨h.uncancelled, h.open_flights, fun found hfound => .inl (h.outcome found hfound), ?_⟩
    rw [Flight.mayCarry_empty]
    exact h.open_sum
  · rintro ⟨hpasses, hstocked, hleads⟩
    have hsum := hleads.open_sum
    rw [Flight.mayCarry_empty] at hsum
    refine ⟨hpasses, fun found hfound => ?_, hstocked, hsum⟩
    obtain hresult | ⟨fault, hstop, -⟩ := hleads.outcome found hfound
    · exact hresult
    · cases hstop

theorem stocked_begin {walk : Walk α} {passes : Passes} (hleft : 0 < walk.left) :
    (begin walk passes).Stocked :=
  fun _ hdone => absurd hdone (Nat.ne_of_gt hleft)

theorem Stocked.move {move : Move} (h : p.Stocked) (hmove : p.move? plan move = some q) :
    q.Stocked := by
  cases move with
  | submit =>
      obtain ⟨-, -, -, rfl⟩ := submit?_eq_some hmove
      exact fun _ _ => by simp
  | take =>
      obtain ⟨_, _, _, -, rfl⟩ := take?_eq_some hmove
      exact fun _ _ => by simp
  | check flight =>
      obtain ⟨_, _, _, -, -, rfl⟩ := check?_eq_some hmove
      exact fun _ _ => by simp
  | finish flight =>
      obtain ⟨_, _, _, -, -, rfl⟩ := finish?_eq_some hmove
      exact fun _ _ => by simp
  | collect =>
      obtain ⟨-, found, rest, -, rfl⟩ := collect?_eq_some hmove
      cases found with
      | error fault => exact nofun
      | ok sum =>
          rintro hopen hleft rfl
          have hleft : p.walk.left = 0 := hleft
          simp [hleft] at hopen
  | cancel =>
      cases hmove
      exact h

theorem leads_begin {walk : Walk α} {passes : Passes}
    (hsum : plan.addAll (walk.batches plan.step plan.chunkSize) (Scalar.ofInt 0) = result) :
    (begin walk passes).Leads plan stops result :=
  ⟨nofun, fun _ => ⟨[], .nil, hsum⟩⟩

namespace Leads

theorem submit (h : p.Leads plan stops result) (hmove : p.submit? plan = some q) :
    q.Leads plan stops result := by
  obtain ⟨hopen, hleft, -, rfl⟩ := submit?_eq_some hmove
  refine ⟨h.outcome, fun _ => ?_⟩
  obtain ⟨inFlight, hcarries, hsum⟩ := h.open_sum hopen
  refine ⟨inFlight ++ [p.walk.batch plan.step plan.chunkSize],
    List.rel_append hcarries (.cons (.inl .queued) .nil), ?_⟩
  rw [Walk.batches_of_left hleft] at hsum
  rw [List.append_assoc]
  exact hsum

theorem replace {before after : List (Flight α)} {old new : Flight α} {passes : Passes}
    (h : p.Leads plan stops result) (hflights : p.flights = before ++ old :: after)
    (hstep : ∀ starts, Flight.MayCarry plan stops old starts →
      Flight.MayCarry plan stops new starts) :
    { p with flights := before ++ new :: after, passes }.Leads plan stops result := by
  refine ⟨h.outcome, fun hopen => ?_⟩
  obtain ⟨inFlight, hcarries, hsum⟩ := h.open_sum hopen
  rw [hflights] at hcarries
  exact ⟨inFlight, forall₂_replace hstep hcarries, hsum⟩

theorem take (h : p.Leads plan stops result) (hmove : p.take? plan = some q) :
    q.Leads plan stops result := by
  obtain ⟨before, starts, after, hflights, rfl⟩ := take?_eq_some hmove
  exact h.replace hflights fun _ => Flight.MayCarry.take

theorem check {flight : Nat} (h : p.Leads plan stops result)
    (hcheck : p.passes.allows ∨ .cancelled ∈ stops) (hmove : p.check? flight = some q) :
    q.Leads plan stops result := by
  obtain ⟨before, starts, after, hflights, -, rfl⟩ := check?_eq_some hmove
  exact h.replace hflights fun _ => Flight.MayCarry.check hcheck

theorem finish {flight : Nat} (h : p.Leads plan stops result)
    (hmove : p.finish? plan flight = some q) : q.Leads plan stops result := by
  obtain ⟨before, starts, after, hflights, -, rfl⟩ := finish?_eq_some hmove
  exact h.replace hflights fun _ => Flight.MayCarry.finish

theorem collect (h : p.Leads plan stops result) (hmove : p.collect? plan = some q) :
    q.Leads plan stops result := by
  obtain ⟨hopen, found, rest, hflights, rfl⟩ := collect?_eq_some hmove
  obtain ⟨inFlight, hcarries, hsum⟩ := h.open_sum hopen
  -- The oldest batch in flight is the one that what is left to add begins with.
  rw [hflights] at hcarries
  rcases hcarries with _ | ⟨hcarries | ⟨fault, hstop, ⟨⟩⟩, hrest⟩
  · cases hcarries
    rename_i starts others
    rw [List.cons_append, PoolPlan.addAll, List.foldlM_cons] at hsum
    cases hfound : plan.batchSum starts with
    | error fault =>
        rw [hfound] at hsum
        exact ⟨fun _ houtcome => .inl ((Option.some.inj houtcome).symm.trans hsum), nofun⟩
    | ok sum =>
        rw [hfound] at hsum
        have hsum : plan.addAll (others ++ p.walk.batches plan.step plan.chunkSize)
          (p.total + sum) = result := hsum
        dsimp only
        by_cases hlast : p.walk.left = 0 ∧ rest = []
        · obtain ⟨hleft, rfl⟩ := hlast
          cases hrest
          rw [Walk.batches_of_done hleft] at hsum
          rw [if_pos (by simp [hleft])]
          exact ⟨fun _ houtcome => .inl ((Option.some.inj houtcome).symm.trans hsum), nofun⟩
        · rw [if_neg (by simpa using hlast)]
          exact ⟨nofun, fun _ => ⟨others, hrest, hsum⟩⟩
  · exact ⟨fun _ houtcome => .inr ⟨fault, hstop, (Option.some.inj houtcome).symm⟩, nofun⟩

/-- A pool stays on its way, whichever move is made. -/
theorem move {move : Move} (h : p.Leads plan stops result)
    (hcheck : p.passes.allows ∨ .cancelled ∈ stops) (hmove : p.move? plan move = some q) :
    q.Leads plan stops result := by
  cases move with
  | submit => exact h.submit hmove
  | take => exact h.take hmove
  | check flight => exact h.check hcheck hmove
  | finish flight => exact h.finish hmove
  | collect => exact h.collect hmove
  | cancel =>
      cases hmove
      exact ⟨h.outcome, h.open_sum⟩

end Leads

theorem heads_begin {walk : Walk α} (hleft : 0 < walk.left)
    (hsum : plan.addAll (walk.batches plan.step plan.chunkSize) (Scalar.ofInt 0) = result) :
    (begin walk .unlimited).Heads plan result :=
  heads_iff.2 ⟨rfl, stocked_begin hleft, leads_begin hsum⟩

theorem Heads.move {move : Move} (h : p.Heads plan result) (hcancel : move ≠ .cancel)
    (hmove : p.move? plan move = some q) : q.Heads plan result := by
  obtain ⟨hpasses, hstocked, hleads⟩ := heads_iff.1 h
  have hallows : p.passes.allows := by
    rw [hpasses]
    rfl
  refine heads_iff.2 ⟨?_, hstocked.move hmove, hleads.move (.inl hallows) hmove⟩
  rw [passes_move? hmove, hpasses]
  cases move with
  | submit | take | check flight | finish flight | collect => rfl
  | cancel => exact absurd rfl hcancel

omit [Scalar α] in
theorem movesLeft_checked (passes : Passes) (starts : List α) :
    (Flight.checked passes starts).movesLeft ≤ 2 := by
  unfold Flight.checked
  split <;> simp [Flight.movesLeft]

/-- Each move takes one or more off the moves that are left. -/
theorem movesLeft_move {move : Move} (hcancel : move ≠ .cancel)
    (hmove : p.move? plan move = some q) : q.movesLeft plan + 1 ≤ p.movesLeft plan := by
  cases move with
  | submit =>
      obtain ⟨-, hleft, -, rfl⟩ := submit?_eq_some hmove
      rw [movesLeft, movesLeft, Walk.batches_of_left hleft, List.length_cons, List.map_append,
        List.sum_append]
      simp only [List.map_cons, List.map_nil, List.sum_cons, List.sum_nil, Flight.movesLeft]
      omega
  | take =>
      obtain ⟨before, starts, after, hflights, rfl⟩ := take?_eq_some hmove
      rw [movesLeft, movesLeft, hflights]
      simp only [List.map_append, List.sum_append, List.map_cons, List.sum_cons, Flight.movesLeft]
      omega
  | check flight =>
      obtain ⟨before, starts, after, hflights, -, rfl⟩ := check?_eq_some hmove
      have hheld : (Flight.held starts).movesLeft = 3 := rfl
      have hchecked := movesLeft_checked p.passes starts
      rw [movesLeft, movesLeft, hflights]
      simp only [List.map_append, List.sum_append, List.map_cons, List.sum_cons, hheld]
      omega
  | finish flight =>
      obtain ⟨before, starts, after, hflights, -, rfl⟩ := finish?_eq_some hmove
      rw [movesLeft, movesLeft, hflights]
      simp only [List.map_append, List.sum_append, List.map_cons, List.sum_cons, Flight.movesLeft]
      omega
  | collect =>
      obtain ⟨-, found, rest, hflights, rfl⟩ := collect?_eq_some hmove
      rw [movesLeft, movesLeft, hflights]
      simp only [List.map_cons, List.sum_cons, Flight.movesLeft]
      cases found <;> dsimp only <;> omega
  | cancel => exact absurd rfl hcancel

theorem movesLeft_run {schedule : List Move} (hrun : p.run? plan schedule = some q) :
    q.movesLeft plan + schedule.length ≤ p.movesLeft plan + schedule.count .cancel := by
  induction schedule generalizing p with
  | nil =>
      cases hrun
      exact Nat.le_refl _
  | cons move rest ih =>
      obtain ⟨next, hnext, hrest⟩ := Option.bind_eq_some_iff.1 hrun
      have hlast := ih hrest
      rw [List.length_cons]
      by_cases hcancel : move = .cancel
      · subst hcancel
        cases hnext
        rw [List.count_cons_self]
        have hsame : ({ p with passes := .exhausted } : Pool α).movesLeft plan =
          p.movesLeft plan := rfl
        omega
      · have := movesLeft_move hcancel hnext
        rw [List.count_cons_of_ne hcancel]
        omega

theorem Stocked.flights_ne_nil (h : p.Stocked) (hopen : p.outcome = none)
    (hready : (p.walk.left == 0 || plan.window ≤ p.flights.length) = true) : p.flights ≠ [] := by
  have hworkers : 0 < plan.workers.val := plan.workers.property
  rw [Bool.or_eq_true, beq_iff_eq, decide_eq_true_eq, PoolPlan.window] at hready
  obtain hleft | hwindow := hready
  · exact h hopen hleft
  · rw [← List.length_pos_iff]
    omega

theorem Stocked.plainMove_isSome (h : p.Stocked) (plan : PoolPlan α) (hopen : p.outcome = none) :
    p.plainMove plan ≠ .cancel ∧ (p.move? plan (p.plainMove plan)).isSome := by
  unfold plainMove
  split
  · rename_i flight hfind
    exact ⟨nofun, finish?_isSome hfind⟩
  · rename_i hfind
    split
    · rename_i flight hheld
      exact ⟨nofun, check?_isSome hheld⟩
    · rename_i hheld
      have hidle : ∀ flight ∈ p.flights, flight.isBusy = false := by
        intro flight hmem
        rw [Flight.isBusy, List.findIdx?_eq_none_iff.1 hheld flight hmem,
          List.findIdx?_eq_none_iff.1 hfind flight hmem]
        rfl
      split
      · rename_i hqueued
        exact ⟨nofun, take?_isSome hidle hqueued⟩
      · rename_i hqueued
        split
        · rename_i hready
          have hne := h.flights_ne_nil hopen hready
          exact ⟨nofun, collect?_isSome hidle hqueued hne hopen hready⟩
        · rename_i hroom
          exact ⟨nofun, submit?_isSome hopen hroom⟩

theorem Stocked.exists_run_settle (moves : Nat) (h : p.Stocked)
    (hmoves : p.movesLeft plan ≤ moves) : ∃ schedule, .cancel ∉ schedule ∧
      p.run? plan schedule = some (settle plan moves p) ∧
        (settle plan moves p).outcome.isSome := by
  -- Each move leaves fewer, so an open pool with none left would still have one to make.
  induction moves generalizing p with
  | zero =>
      refine ⟨[], List.not_mem_nil, rfl, ?_⟩
      cases hopen : p.outcome with
      | some found => rw [settle, hopen]; rfl
      | none =>
          obtain ⟨hcancel, hsome⟩ := h.plainMove_isSome plan hopen
          obtain ⟨next, hnext⟩ := Option.isSome_iff_exists.1 hsome
          have := movesLeft_move hcancel hnext
          omega
  | succ moves ih =>
      rw [settle]
      cases hopen : p.outcome with
      | some found => exact ⟨[], List.not_mem_nil, rfl, by rw [if_pos (by rfl), hopen]; rfl⟩
      | none =>
          obtain ⟨hcancel, hsome⟩ := h.plainMove_isSome plan hopen
          obtain ⟨next, hnext⟩ := Option.isSome_iff_exists.1 hsome
          have := movesLeft_move hcancel hnext
          obtain ⟨schedule, hothers, hrun, houtcome⟩ := ih (h.move hnext) (by omega)
          rw [if_neg (by simp)]
          simp only [hnext]
          refine ⟨p.plainMove plan :: schedule, ?_, ?_, houtcome⟩
          · exact List.not_mem_cons_of_ne_of_not_mem hcancel.symm hothers
          · rw [run?, hnext]
            exact hrun

theorem Heads.plainMove_isSome (h : p.Heads plan result) (hopen : p.outcome = none) :
    p.plainMove plan ≠ .cancel ∧ (p.move? plan (p.plainMove plan)).isSome :=
  Stocked.plainMove_isSome h.open_flights plan hopen

theorem Heads.run {schedule : List Move} (h : p.Heads plan result) (hcancel : .cancel ∉ schedule)
    (hrun : p.run? plan schedule = some q) :
    q.Heads plan result ∧ q.movesLeft plan + schedule.length ≤ p.movesLeft plan := by
  constructor
  · refine run_keeps (fun _ => Heads plan result) (fun _ _ _ move hmem hheads hmove => ?_) [] h hrun
    exact hheads.move (fun hsame => hcancel (hsame ▸ hmem)) hmove
  · have hcount := movesLeft_run hrun
    rw [List.count_eq_zero_of_not_mem hcancel] at hcount
    exact hcount

/-- A pool that can make all its moves comes to its result. -/
theorem Heads.outcome_settle (moves : Nat) (h : p.Heads plan result)
    (hmoves : p.movesLeft plan ≤ moves) : (settle plan moves p).outcome = some result := by
  obtain ⟨schedule, hcancel, hrun, houtcome⟩ :=
    Stocked.exists_run_settle moves h.open_flights hmoves
  obtain ⟨found, hfound⟩ := Option.isSome_iff_exists.1 houtcome
  rw [hfound, (h.run hcancel hrun).1.outcome found hfound]

end Pool

end PrefixIntegral
