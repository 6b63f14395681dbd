import Mathlib.Order.Bounds.Basic
import PrefixIntegral.Proofs.Courses
import PrefixIntegral.Proofs.Workers

/-!
The collection of batches by a pool, whatever the schedule. The batches that have been submitted
stand in a line, in batch order: those whose results have been collected and then those in flight.
A batch enters at the end of the line, its result is collected when all before it have been, and
between the last sum added and the end of the line there is never more than the window.
-/

namespace PrefixIntegral

variable {α : Type}

/-- What happens to a batch from its submission to its sum: it is submitted, its task ends, its
result is collected, and, where that is a sum, so many are said to have been added. The place of a
batch counts from zero. -/
inductive PoolEntry (α : Type) where
  | submitted (starts : List α)
  | ended (place : Nat) (result : Except IntegrationFault α)
  | collected (result : Except IntegrationFault α)
  | progress (number : Nat)

namespace PoolEntry

def submission? : PoolEntry α → Option (List α)
  | submitted starts => some starts
  | ended .. | collected _ | progress _ => none

def ending? : PoolEntry α → Option (Nat × Except IntegrationFault α)
  | ended place result => some (place, result)
  | submitted _ | collected _ | progress _ => none

def collection? : PoolEntry α → Option (Except IntegrationFault α)
  | collected result => some result
  | submitted _ | ended .. | progress _ => none

def progress? : PoolEntry α → Option Nat
  | progress number => some number
  | submitted _ | ended .. | collected _ => none

end PoolEntry

/-- What has happened to the batches of a pool so far, kind by kind and in order. -/
structure Ledger (α : Type) where
  submitted : List (List α)
  ended : List (Nat × Except IntegrationFault α)
  collected : List (Except IntegrationFault α)
  progress : List Nat

namespace Ledger

def ofEntries (entries : List (PoolEntry α)) : Ledger α where
  submitted := entries.filterMap PoolEntry.submission?
  ended := entries.filterMap PoolEntry.ending?
  collected := entries.filterMap PoolEntry.collection?
  progress := entries.filterMap PoolEntry.progress?

@[simp] theorem ofEntries_nil : ofEntries ([] : List (PoolEntry α)) = ⟨[], [], [], []⟩ := rfl

@[simp] theorem ofEntries_submitted (starts : List α) :
    ofEntries [.submitted starts] = ⟨[starts], [], [], []⟩ := rfl

@[simp] theorem ofEntries_ended (place : Nat) (result : Except IntegrationFault α) :
    ofEntries [.ended place result] = ⟨[], [(place, result)], [], []⟩ := rfl

@[simp] theorem ofEntries_collected (result : Except IntegrationFault α) :
    ofEntries [.collected result] = ⟨[], [], [result], []⟩ := rfl

@[simp] theorem ofEntries_added (result : Except IntegrationFault α) (number : Nat) :
    ofEntries [.collected result, .progress number] = ⟨[], [], [result], [number]⟩ := rfl

theorem ofEntries_append (first second : List (PoolEntry α)) :
    ofEntries (first ++ second) =
      ⟨(ofEntries first).submitted ++ (ofEntries second).submitted,
        (ofEntries first).ended ++ (ofEntries second).ended,
        (ofEntries first).collected ++ (ofEntries second).collected,
        (ofEntries first).progress ++ (ofEntries second).progress⟩ := by
  simp only [ofEntries, List.filterMap_append]

/-- The line of the batches that have been submitted: those collected, and those in flight. -/
def line (ledger : Ledger α) (flights : List (Flight α)) : List (Flight α) :=
  ledger.collected.map .done ++ flights

def sums (ledger : Ledger α) : List α := ledger.collected.filterMap Except.toOption

theorem line_append (ledger : Ledger α) (first second : List (Flight α)) :
    ledger.line (first ++ second) = ledger.line first ++ second :=
  (List.append_assoc _ _ _).symm

theorem line_collect (ledger : Ledger α) (result : Except IntegrationFault α)
    (progress : List Nat) (rest : List (Flight α)) :
    { ledger with collected := ledger.collected ++ [result], progress }.line rest =
      ledger.line (.done result :: rest) := by
  simp [line]

theorem sums_collect (ledger : Ledger α) (result : Except IntegrationFault α)
    (progress : List Nat) :
    { ledger with collected := ledger.collected ++ [result], progress }.sums =
      ledger.sums ++ result.toOption.toList := by
  cases result <;> simp [sums, Except.toOption]

theorem getElem?_line (ledger : Ledger α) (before after : List (Flight α)) (flight : Flight α) :
    (ledger.line (before ++ flight :: after))[ledger.collected.length + before.length]? =
      some flight := by
  simp [line]

theorem line_set (ledger : Ledger α) (before after : List (Flight α)) (old new : Flight α) :
    (ledger.line (before ++ old :: after)).set (ledger.collected.length + before.length) new =
      ledger.line (before ++ new :: after) := by
  simp [line]

end Ledger

/-- The places of the batches whose tasks raise: those that have ended with a fault, and those with
a fault at one of their points. -/
def PoolPlan.raising [Scalar α] (plan : PoolPlan α) (all : List (List α)) (ledger : Ledger α) :
    Set Nat :=
  {place | ∃ fault, (place, .error fault) ∈ ledger.ended ∨
    ∃ starts, all[place]? = some starts ∧ plan.batchSum starts = .error fault}

namespace Pool

def failure? (p : Pool α) : Option IntegrationFault :=
  match p.outcome with
  | some (.error fault) => some fault
  | _ => none

/-- How many results have been collected: those added, and the one that stopped the pool. -/
def taken (p : Pool α) : Nat := p.collected + p.failure?.toList.length

variable [Scalar α]

def entriesOf (plan : PoolPlan α) (p : Pool α) : Move → List (PoolEntry α)
  | .submit => [.submitted (p.walk.batch plan.step plan.chunkSize)]
  | .take => []
  | .check flight =>
    if p.passes.allows then [] else [.ended (p.taken + flight) (.error .cancelled)]
  | .finish flight =>
    match p.flights[flight]? with
    | some (.running starts) => [.ended (p.taken + flight) (plan.batchSum starts)]
    | _ => []
  | .collect =>
    match p.flights with
    | .done (.error fault) :: _ => [.collected (.error fault)]
    | .done (.ok sum) :: _ => [.collected (.ok sum), .progress (p.collected + 1)]
    | _ => []
  | .cancel => []

def ledger (plan : PoolPlan α) (p : Pool α) (schedule : List Move) : Ledger α :=
  .ofEntries (p.tale (entriesOf plan) plan schedule)

/-- What is so in every state of a pool, after what has happened to its batches: they stand in the
line in batch order and a task has ended exactly if its batch is done there; the results collected
are the sums added and the fault that stops the pool; and from the last sum on the line has no more
than the window. -/
structure InOrder (plan : PoolPlan α) (all : List (List α)) (ledger : Ledger α) (p : Pool α) :
    Prop where
  batches : ledger.submitted ++ p.walk.batches plan.step plan.chunkSize = all
  line : List.Forall₂ (Flight.MayCarry plan {.cancelled}) (ledger.line p.flights) ledger.submitted
  ended : ∀ place result,
    (place, result) ∈ ledger.ended ↔ (ledger.line p.flights)[place]? = some (.done result)
  collected : ledger.collected = ledger.sums.map .ok ++ p.failure?.toList.map .error
  added : ledger.sums.length = p.collected
  total : p.total = ledger.sums.foldl (· + ·) (Scalar.ofInt 0)
  progress : ledger.progress = (List.range p.collected).map (· + 1)
  window : ledger.submitted.length ≤ p.collected + plan.window
  value : ∀ sum, p.outcome = some (.ok sum) → sum = p.total ∧ p.flights = [] ∧ p.walk.left = 0

variable {plan : PoolPlan α} {p q : Pool α} {all : List (List α)} {ledger : Ledger α}

theorem inOrder_begin (walk : Walk α) (passes : Passes) :
    (begin walk passes).InOrder plan (walk.batches plan.step plan.chunkSize) (.ofEntries []) where
  batches := rfl
  line := .nil
  ended := by simp [Ledger.ofEntries, Ledger.line, begin]
  collected := rfl
  added := rfl
  total := rfl
  progress := rfl
  window := Nat.zero_le _
  value := nofun

namespace InOrder

theorem length_collected (h : p.InOrder plan all ledger) : ledger.collected.length = p.taken := by
  rw [h.collected, List.length_append, List.length_map, List.length_map, h.added, taken]

theorem length_line (h : p.InOrder plan all ledger) :
    p.taken + p.flights.length = ledger.submitted.length := by
  rw [← h.line.length_eq, Ledger.line, List.length_append, List.length_map, h.length_collected]

theorem submit (h : p.InOrder plan all ledger) (hmove : p.submit? plan = some q) :
    q.InOrder plan all { ledger with
      submitted := ledger.submitted ++ [p.walk.batch plan.step plan.chunkSize] } := by
  obtain ⟨hopen, hleft, hroom, rfl⟩ := submit?_eq_some hmove
  refine ⟨?_, ?_, ?_, h.collected, h.added, h.total, h.progress, ?_, ?_⟩
  · rw [List.append_assoc, List.singleton_append, ← Walk.batches_of_left hleft]
    exact h.batches
  · rw [Ledger.line_append]
    exact List.rel_append h.line (.cons (.inl .queued) .nil)
  · intro place result
    show _ ↔ (ledger.line (p.flights ++ [.queued _]))[place]? = _
    rw [h.ended place result, Ledger.line_append, List.getElem?_append]
    split
    · rfl
    · rename_i hbeyond
      rw [List.getElem?_eq_none (Nat.le_of_not_lt hbeyond)]
      simp [List.getElem?_singleton]
  · have hlength := h.length_line
    rw [taken, failure?, hopen] at hlength
    simp only [Option.toList_none, List.length_nil, List.length_append, List.length_singleton]
      at hlength ⊢
    omega
  · intro sum hsum
    cases hopen.symm.trans hsum

theorem replace {before after : List (Flight α)} {old new : Flight α} {passes : Passes}
    {ended : List (Nat × Except IntegrationFault α)} (h : p.InOrder plan all ledger)
    (hflights : p.flights = before ++ old :: after) (hold : ∀ result, old ≠ .done result)
    (hnew : ∀ starts, Flight.MayCarry plan {.cancelled} old starts →
      Flight.MayCarry plan {.cancelled} new starts)
    (hended : ∀ place result, (place, result) ∈ ended ↔
      place = p.taken + before.length ∧ new = .done result) :
    { p with flights := before ++ new :: after, passes }.InOrder plan all
      { ledger with ended := ledger.ended ++ ended } := by
  have hline := h.line
  have hplace := ledger.getElem?_line before after old
  have hset := ledger.line_set before after old new
  rw [hflights] at hline
  rw [h.length_collected] at hplace hset
  refine ⟨h.batches, ?_, ?_, h.collected, h.added, h.total, h.progress, h.window, ?_⟩
  · rw [Ledger.line, ← List.append_assoc] at hline ⊢
    exact forall₂_replace hnew hline
  · intro place result
    show _ ↔ (ledger.line (before ++ new :: after))[place]? = _
    rw [List.mem_append, h.ended, hended, hflights, ← hset, List.getElem?_set]
    -- An end is told of the place of this batch only, and it was not done there before.
    obtain rfl | hother := eq_or_ne place (p.taken + before.length)
    · have hlt := (List.getElem?_eq_some_iff.1 hplace).1
      rw [hplace, if_pos rfl, if_pos hlt]
      simp [hold result]
    · rw [if_neg hother.symm]
      simp [hother]
  · intro sum hsum
    obtain ⟨-, hempty, -⟩ := h.value sum hsum
    simp [hflights] at hempty

theorem take (h : p.InOrder plan all ledger) (hmove : p.take? plan = some q) :
    q.InOrder plan all ledger := by
  obtain ⟨before, starts, after, hflights, rfl⟩ := take?_eq_some hmove
  have hnone : ∀ place result, (place, result) ∈ ([] : List (Nat × Except IntegrationFault α)) ↔
      place = p.taken + before.length ∧ Flight.held starts = .done result := by simp
  have hnext : InOrder plan all { ledger with ended := ledger.ended ++ [] }
      { p with flights := before ++ .held starts :: after } :=
    h.replace hflights nofun (fun _ => Flight.MayCarry.take) hnone
  rwa [List.append_nil] at hnext

theorem check {flight : Nat} (h : p.InOrder plan all ledger) (hmove : p.check? flight = some q) :
    q.InOrder plan all { ledger with ended := ledger.ended ++
      if p.passes.allows then [] else [(p.taken + flight, .error .cancelled)] } := by
  obtain ⟨before, starts, after, hflights, rfl, rfl⟩ := check?_eq_some hmove
  refine h.replace hflights nofun (fun _ => Flight.MayCarry.check (.inr rfl)) ?_
  intro place result
  unfold Flight.checked
  split <;> simp [eq_comm]

theorem finish {flight : Nat} (h : p.InOrder plan all ledger)
    (hmove : p.finish? plan flight = some q) :
    ∃ starts, p.flights[flight]? = some (.running starts) ∧
      q.InOrder plan all { ledger with
        ended := ledger.ended ++ [(p.taken + flight, plan.batchSum starts)] } := by
  obtain ⟨before, starts, after, hflights, rfl, rfl⟩ := finish?_eq_some hmove
  refine ⟨starts, by simp [hflights],
    h.replace hflights nofun (fun _ => Flight.MayCarry.finish) fun place result => ?_⟩
  simp [eq_comm]

theorem collected_of_open (h : p.InOrder plan all ledger) (hopen : p.outcome = none) :
    ledger.collected = ledger.sums.map .ok := by
  rw [h.collected, failure?, hopen]
  exact List.append_nil _

theorem collect_fault (h : p.InOrder plan all ledger) (hopen : p.outcome = none)
    {fault : IntegrationFault} {rest : List (Flight α)}
    (hflights : p.flights = .done (.error fault) :: rest) :
    { p with flights := rest, outcome := some (.error fault) }.InOrder plan all
      { ledger with collected := ledger.collected ++ [Except.error fault] } := by
  have hline := h.line
  have hended := h.ended
  have hsums := ledger.sums_collect (.error fault) ledger.progress
  rw [hflights, ← ledger.line_collect _ ledger.progress] at hline hended
  rw [Except.toOption, Option.toList_none, List.append_nil] at hsums
  refine ⟨h.batches, hline, hended, ?_, ?_, ?_, h.progress, h.window, nofun⟩
  · rw [hsums, ← h.collected_of_open hopen]
    rfl
  · rw [hsums]
    exact h.added
  · rw [hsums]
    exact h.total

theorem collect_sum (h : p.InOrder plan all ledger) (hopen : p.outcome = none) {sum : α}
    {rest : List (Flight α)} (hflights : p.flights = .done (.ok sum) :: rest) :
    { p with
      flights := rest
      collected := p.collected + 1
      total := p.total + sum
      outcome := if p.walk.left == 0 && rest.isEmpty then some (.ok (p.total + sum))
        else none }.InOrder plan all
      { ledger with
        collected := ledger.collected ++ [Except.ok sum]
        progress := ledger.progress ++ [p.collected + 1] } := by
  have hline := h.line
  have hended := h.ended
  have hsums := ledger.sums_collect (.ok sum) (ledger.progress ++ [p.collected + 1])
  rw [hflights, ← ledger.line_collect _ (ledger.progress ++ [p.collected + 1])] at hline hended
  refine ⟨h.batches, hline, hended, ?_, ?_, ?_, ?_, ?_, ?_⟩
  · -- Whether or not this is the last batch, no fault stops the pool.
    rw [hsums, List.map_append, ← h.collected_of_open hopen, failure?]
    dsimp only
    split <;> simp_all [Except.toOption]
  · rw [hsums, List.length_append, h.added]
    rfl
  · rw [hsums, List.foldl_append, ← h.total]
    rfl
  · rw [h.progress, List.range_succ, List.map_append]
    rfl
  · exact h.window.trans (by dsimp only; omega)
  · intro total htotal
    dsimp only at htotal ⊢
    split at htotal
    · rename_i hlast
      obtain ⟨hleft, hempty⟩ : p.walk.left = 0 ∧ rest = [] := by simpa using hlast
      exact ⟨(Except.ok.inj (Option.some.inj htotal)).symm, hempty, hleft⟩
    · cases htotal

/-- Whichever move is made, the batches stay in order. -/
theorem move {entries : List (PoolEntry α)} {move : Move}
    (h : p.InOrder plan all (.ofEntries entries)) (hmove : p.move? plan move = some q) :
    q.InOrder plan all (.ofEntries (entries ++ p.entriesOf plan move)) := by
  rw [Ledger.ofEntries_append]
  cases move with
  | submit => simpa [entriesOf] using h.submit hmove
  | take => simpa [entriesOf] using h.take hmove
  | check flight =>
      have hnext := h.check hmove
      rw [entriesOf]
      by_cases hallows : p.passes.allows
      · simpa [hallows] using hnext
      · simpa [hallows] using hnext
  | finish flight =>
      obtain ⟨starts, hflight, hnext⟩ := h.finish hmove
      rw [entriesOf, hflight]
      simpa using hnext
  | collect =>
      obtain ⟨hopen, result, rest, hflights, rfl⟩ := collect?_eq_some hmove
      rw [entriesOf, hflights]
      cases result with
      | error fault => simpa using h.collect_fault hopen hflights
      | ok sum => simpa using h.collect_sum hopen hflights
  | cancel =>
      cases hmove
      simp only [entriesOf, Ledger.ofEntries_nil, List.append_nil]
      exact ⟨h.batches, h.line, h.ended, h.collected, h.added, h.total, h.progress, h.window,
        h.value⟩

/-- Whatever the schedule, the batches stay in order. -/
theorem run {walk : Walk α} {passes : Passes} {schedule : List Move}
    (hrun : (begin walk passes).run? plan schedule = some p) :
    p.InOrder plan (walk.batches plan.step plan.chunkSize)
      ((begin walk passes).ledger plan schedule) :=
  tale_keeps (fun entries p => p.InOrder plan _ (.ofEntries entries))
    (fun _ _ _ _ _ hinOrder hmove => hinOrder.move hmove) [] (inOrder_begin walk passes) hrun

theorem prefix_all (h : p.InOrder plan all ledger) : ledger.submitted <+: all := ⟨_, h.batches⟩

theorem flights_carry (h : p.InOrder plan all ledger) :
    List.Forall₂ (Flight.MayCarry plan {.cancelled}) p.flights
      (ledger.submitted.drop ledger.collected.length) := by
  have hcarries := List.forall₂_drop ledger.collected.length h.line
  rwa [Ledger.line, List.drop_left' (List.length_map _)] at hcarries

theorem length_flights_le (h : p.InOrder plan all ledger) : p.flights.length ≤ plan.window := by
  have hline := h.length_line
  have hwindow := h.window
  rw [taken] at hline
  omega

theorem batchSum_of_done (h : p.InOrder plan all ledger) {place : Nat}
    {result : Except IntegrationFault α}
    (hdone : (ledger.line p.flights)[place]? = some (.done result)) :
    ∃ starts, all[place]? = some starts ∧
      (result = plan.batchSum starts ∨ result = .error .cancelled) := by
  obtain ⟨hlt, hget⟩ := List.getElem?_eq_some_iff.1 hdone
  have hlt' : place < ledger.submitted.length := h.line.length_eq ▸ hlt
  have hcarries := h.line.get hlt hlt'
  rw [List.get_eq_getElem, List.get_eq_getElem, hget] at hcarries
  refine ⟨ledger.submitted[place], ?_, ?_⟩
  · rw [← h.batches, List.getElem?_append_left hlt', List.getElem?_eq_getElem hlt']
  · rcases hcarries with hcarries | ⟨fault, rfl, hsame⟩
    · cases hcarries
      exact .inl rfl
    · exact .inr (Flight.done.inj hsame)

theorem line_sum (h : p.InOrder plan all ledger) {place : Nat}
    (hplace : place < ledger.sums.length) :
    (ledger.line p.flights)[place]? = some (.done (.ok ledger.sums[place])) := by
  rw [Ledger.line, h.collected, List.getElem?_append_left (by simp; omega), List.map_append,
    List.getElem?_append_left (by simpa using hplace)]
  simp [hplace]

theorem sums_eq (h : p.InOrder plan all ledger) :
    ledger.sums.map .ok = (all.take p.collected).map plan.batchSum := by
  have hsum : ∀ place (hplace : place < ledger.sums.length),
      ∃ starts, all[place]? = some starts ∧ .ok ledger.sums[place] = plan.batchSum starts := by
    intro place hplace
    obtain ⟨starts, hstarts, hsum | ⟨⟨⟩⟩⟩ := h.batchSum_of_done (h.line_sum hplace)
    exact ⟨starts, hstarts, hsum⟩
  refine List.ext_getElem? fun place => ?_
  by_cases hplace : place < ledger.sums.length
  · obtain ⟨starts, hstarts, hsum⟩ := hsum place hplace
    rw [List.getElem?_map, List.getElem?_map, List.getElem?_take_of_lt (h.added ▸ hplace), hstarts,
      List.getElem?_eq_getElem hplace, Option.map_some, Option.map_some, hsum]
  · have hbeyond : p.collected ≤ place := h.added ▸ Nat.le_of_not_lt hplace
    rw [List.getElem?_eq_none (by simpa using hplace), List.getElem?_eq_none (by simp; omega)]

theorem getLast?_progress (h : p.InOrder plan all ledger) (hadded : 0 < p.collected) :
    ledger.progress.getLast? = some p.collected := by
  rw [h.progress, List.getLast?_map, List.getLast?_range, if_neg (Nat.ne_of_gt hadded),
    Option.map_some, Nat.sub_add_cancel hadded]

theorem collected_of_value (h : p.InOrder plan all ledger) {sum : α}
    (hsum : p.outcome = some (.ok sum)) : p.collected = all.length := by
  obtain ⟨-, hempty, hleft⟩ := h.value sum hsum
  have hbatches := h.batches
  have hline := h.length_line
  rw [Walk.batches_of_done hleft, List.append_nil] at hbatches
  rw [taken, failure?, hsum, hempty, hbatches] at hline
  exact hline

theorem collected_le_of_raising (h : p.InOrder plan all ledger) {place : Nat}
    (hraises : place ∈ plan.raising all ledger) : p.collected ≤ place := by
  refine Nat.le_of_not_lt fun hlt => ?_
  have hsum := h.line_sum (h.added.symm ▸ hlt)
  obtain ⟨fault, hended | ⟨starts, hstarts, hfault⟩⟩ := hraises
  · rw [h.ended, hsum] at hended
    cases hended
  · obtain ⟨others, hothers, hsame | ⟨⟨⟩⟩⟩ := h.batchSum_of_done hsum
    cases hstarts.symm.trans hothers
    cases hsame.trans hfault

theorem lt_length_of_raising (h : p.InOrder plan all ledger) {place : Nat}
    (hraises : place ∈ plan.raising all ledger) : place < all.length := by
  obtain ⟨fault, hended | ⟨starts, hstarts, -⟩⟩ := hraises
  · obtain ⟨starts, hstarts, -⟩ := h.batchSum_of_done ((h.ended _ _).1 hended)
    exact (List.getElem?_eq_some_iff.1 hstarts).1
  · exact (List.getElem?_eq_some_iff.1 hstarts).1

theorem ended_of_fault (h : p.InOrder plan all ledger) {fault : IntegrationFault}
    (hfault : p.outcome = some (.error fault)) : (p.collected, .error fault) ∈ ledger.ended := by
  rw [h.ended, Ledger.line, h.collected, failure?, hfault, ← h.added]
  simp

/-- A pool with an outcome has added the batches before the first that raises, and has its fault. -/
theorem outcome_of_raising (h : p.InOrder plan all ledger) {place : Nat}
    (hfirst : IsLeast (plan.raising all ledger) place) (houtcome : p.outcome.isSome) :
    p.collected = place ∧
      ∃ fault, p.outcome = some (.error fault) ∧ (place, .error fault) ∈ ledger.ended := by
  have hle := h.collected_le_of_raising hfirst.1
  obtain ⟨found | sum, hfound⟩ := Option.isSome_iff_exists.1 houtcome
  · have hended := h.ended_of_fault hfound
    obtain rfl : p.collected = place := Nat.le_antisymm hle (hfirst.2 ⟨found, .inl hended⟩)
    exact ⟨rfl, found, hfound, hended⟩
  · have hlt := h.lt_length_of_raising hfirst.1
    have hall := h.collected_of_value hfound
    omega

end InOrder

end Pool

def RunEvent.batchDone? : RunEvent α → Option (Nat × Nat)
  | batchDone number batches => some (number, batches)
  | reversedLimits .. | started .. | pooled .. | finished .. => none

theorem Configuration.batchCount_pos (c : Configuration) : 0 < c.batchCount := by
  have hgrain : 0 < c.grain.val := c.grain.property
  have hchunk : 0 < c.chunkSize.val := c.chunkSize.property
  exact Nat.div_pos (by omega) hchunk

namespace Tree

variable [Scalar α]

theorem batchDone_integrate_pooled {t : Tree α} {lower upper : α} {c : Configuration}
    {passes : Passes} (hpooled : ¬(c.workers.val = 1 ∨ c.batchCount = 1))
    (hgrain : Scalar.reaches α c.grain.val = true) :
    let summation := (t.poolPlan lower upper c).sum c.batchCount ⟨lower, c.grain.val⟩ passes
    (t.integrate lower upper c passes).events.filterMap RunEvent.batchDone? =
      (List.range summation.added).map fun i => (i + 1, c.batchCount) := by
  intro summation
  have hbefore : (if (Step.between lower upper c.grain.val).reversed then
      [RunEvent.reversedLimits lower upper] else []).filterMap RunEvent.batchDone? = [] := by
    split <;> rfl
  have hnumbers : (RunEvent.batchDone? : RunEvent α → _) ∘
      (fun i => .batchDone (i + 1) c.batchCount) = some ∘ fun i => (i + 1, c.batchCount) := rfl
  rw [integrate_eq hgrain, integrateBy]
  simp only [if_neg hpooled, List.filterMap_append, List.filterMap_map]
  rw [hbefore, hnumbers, List.filterMap_eq_map]
  generalize Except.map _ _ = result
  cases result with
  | error fault => exact List.append_nil _
  | ok integral => exact List.append_nil _

/-- Several workers, whatever their schedule and whoever cancels. What is in flight are, in order,
the batches that have been submitted and not collected, and never more than two for each worker;
a task ends at its batch's place in the line. What has been submitted are the first batches, each
once, and what has been added are the sums of the first of these, each once and in order; as many
have been said to be done. Where there is a value, all have been added and said to be done. Where
the first batch whose task raises stands behind so many others, just these are added before the
pool stops, with a fault of that batch, and none further on than two for each worker from there is
ever submitted. What an integration by a pool says of its batches is what is said in a schedule that
comes to an outcome. -/
theorem pool_in_order (t : Tree α) (lower upper : α) (c : Configuration) (passes : Passes) :
    let plan := t.poolPlan lower upper c
    let start := Pool.begin ⟨lower, c.grain.val⟩ passes
    let all := batches lower upper c
    (∀ schedule p, start.run? plan schedule = some p →
      let ledger := start.ledger plan schedule
      (ledger.submitted <+: all ∧
        ledger.collected.length + p.flights.length = ledger.submitted.length ∧
        List.Forall₂ (Flight.MayCarry plan {.cancelled}) p.flights
          (ledger.submitted.drop ledger.collected.length) ∧
        p.flights.length ≤ 2 * c.workers.val ∧
        ∀ place result, (place, result) ∈ ledger.ended ↔
          (ledger.line p.flights)[place]? = some (.done result)) ∧
      (ledger.sums.map .ok = (all.take p.collected).map plan.batchSum ∧
        p.total = ledger.sums.foldl (· + ·) (Scalar.ofInt 0) ∧
        ledger.sums.length = p.collected ∧
        ledger.progress = (List.range p.collected).map (· + 1)) ∧
      (∀ sum, p.outcome = some (.ok sum) → sum = p.total ∧
        ledger.sums.map .ok = all.map plan.batchSum ∧
        ledger.progress.getLast? = some c.batchCount) ∧
      ∀ place, IsLeast (plan.raising all ledger) place →
        ledger.submitted.length ≤ place + 2 * c.workers.val ∧
        (p.outcome.isSome → p.collected = place ∧
          ∃ fault, p.outcome = some (.error fault) ∧ (place, .error fault) ∈ ledger.ended)) ∧
    (¬(c.workers.val = 1 ∨ c.batchCount = 1) → Scalar.reaches α c.grain.val = true →
      ∃ schedule last, start.run? plan schedule = some last ∧ last.outcome.isSome ∧
        (t.integrate lower upper c passes).events.filterMap RunEvent.batchDone? =
          (start.ledger plan schedule).progress.map (·, c.batchCount)) := by
  intro plan start all
  refine ⟨fun schedule p hrun => ?_, fun hpooled hgrain => ?_⟩
  · intro ledger
    have h : p.InOrder plan all ledger := Pool.InOrder.run hrun
    have hlength : ledger.collected.length + p.flights.length = ledger.submitted.length :=
      h.length_collected ▸ h.length_line
    refine ⟨⟨h.prefix_all, hlength, h.flights_carry, h.length_flights_le, h.ended⟩,
      ⟨h.sums_eq, h.total, h.added, h.progress⟩, fun sum hsum => ?_, fun place hfirst => ?_⟩
    · have hall := h.collected_of_value hsum
      have hcount : p.collected = c.batchCount := hall.trans (length_batches lower upper c)
      refine ⟨(h.value sum hsum).1, ?_, ?_⟩
      · rw [h.sums_eq, hall, List.take_length]
      · rw [h.getLast?_progress (hcount ▸ c.batchCount_pos), hcount]
    · refine ⟨?_, h.outcome_of_raising hfirst⟩
      exact h.window.trans (Nat.add_le_add_right (h.collected_le_of_raising hfirst.1) _)
  · obtain ⟨schedule, -, hrun, houtcome⟩ := Pool.Stocked.exists_run_settle (5 * c.batchCount)
      (Pool.stocked_begin c.grain.property) (Nat.le_of_eq (t.movesLeft_begin lower upper c passes))
    refine ⟨schedule, _, hrun, houtcome, ?_⟩
    rw [batchDone_integrate_pooled hpooled hgrain, (Pool.InOrder.run hrun).progress, List.map_map]
    rfl

/-- Two workers for the square of the variable, in three batches. Each worker takes a batch, and the
second of these is refused before the first. -/
theorem pool_in_order_parabola :
    let c : Configuration := ⟨2, ⟨3, by decide⟩, ⟨1, by decide⟩, ⟨2, by decide⟩⟩
    let start : Pool Float := .begin ⟨0, 3⟩ .exhausted
    let schedule : List Move := [.submit, .submit, .submit, .take, .take, .check 1, .check 0,
      .collect]
    ∃ p, start.run? (parabola.poolPlan 0 1 c) schedule = some p ∧
      (start.ledger (parabola.poolPlan 0 1 c) schedule).submitted.length ≤ 0 + 2 * 2 ∧
      p.flights.length ≤ 2 * 2 ∧ p.collected = 0 ∧ ∃ fault, p.outcome = some (.error fault) := by
  intro c start schedule
  have hended : (start.ledger (parabola.poolPlan 0 1 c) schedule).ended =
      [(1, .error .cancelled), (0, .error .cancelled)] := rfl
  have hfirst : IsLeast ((parabola.poolPlan 0 1 c).raising (batches 0 1 c)
      (start.ledger (parabola.poolPlan 0 1 c) schedule)) 0 := by
    refine ⟨⟨.cancelled, .inl ?_⟩, fun place _ => Nat.zero_le place⟩
    rw [hended]
    exact .tail _ (.head _)
  obtain ⟨p, hrun⟩ : ∃ p, start.run? (parabola.poolPlan 0 1 c) schedule = some p := ⟨_, rfl⟩
  have houtcome : p.outcome.isSome := by
    cases hrun
    rfl
  obtain ⟨⟨-, -, -, hflights, -⟩, -, -, hraises⟩ :=
    (pool_in_order parabola 0 1 c .exhausted).1 schedule p hrun
  obtain ⟨hsubmitted, hstops⟩ := hraises 0 hfirst
  obtain ⟨hadded, fault, hfault, -⟩ := hstops houtcome
  exact ⟨p, hrun, hsubmitted, hflights, hadded, fault, hfault⟩

end Tree

end PrefixIntegral
