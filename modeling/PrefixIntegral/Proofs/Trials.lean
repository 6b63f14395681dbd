import Mathlib.Data.List.Forall2
import Mathlib.Data.List.Nodup
import PrefixIntegral.Benchmark.Quick

/-!
What suites of problems record and report. Trials are made in order up to the first that is refused,
and each leaves one record and one line. A report has one row for every problem and count of
sub-intervals with a result, and the latest result of a rule fills its cell.
-/

namespace PrefixIntegral

namespace Suite

variable {s : Suite} {elapsed : Float}

/-! ## Problems -/

theorem names_put (s : Suite) (p : Problem) :
    (s.put p).names = if p.name ∈ s.names then s.names else s.names ++ [p.name] := by
  unfold put
  split
  · rw [names, List.map_map]
    refine List.map_congr_left fun q _ => ?_
    by_cases hname : q.name = p.name
    · simp [hname]
    · simp [hname]
  · exact List.map_append

/-- No name stands for two problems. -/
theorem nodup_names_put (h : s.names.Nodup) (p : Problem) : (s.put p).names.Nodup := by
  rw [names_put]
  split
  · exact h
  · rw [← List.concat_eq_append]
    exact h.concat ‹_›

theorem find?_replace (problems : List Problem) (p : Problem) (name : String) :
    (problems.map fun q => if q.name = p.name then p else q).find? (·.name = name) =
      if p.name = name then (problems.find? (·.name = name)).map fun _ => p
      else problems.find? (·.name = name) := by
  induction problems with
  | nil => simp
  | cons q rest ih =>
      rw [List.map_cons, List.find?_cons, List.find?_cons, ih]
      by_cases hsame : q.name = p.name
      · by_cases hname : p.name = name
        · simp [hsame, hname]
        · simp [hsame, hname]
      · by_cases hname : p.name = name
        · have hother : q.name ≠ name := hname ▸ hsame
          simp [hname, hother]
        · simp only [if_neg hsame, if_neg hname]

/-- A problem is found by its name, and takes the place of one that had this name before. -/
theorem find?_put (s : Suite) (p : Problem) (name : String) :
    (s.put p).find? name = if p.name = name then some p else s.find? name := by
  unfold put
  split
  · rename_i hmem
    refine (find?_replace s.problems p name).trans ?_
    by_cases hname : p.name = name
    · obtain ⟨q, hq, hqname⟩ := List.mem_map.1 hmem
      have hfound : (s.problems.find? (·.name = name)).isSome :=
        List.find?_isSome.2 ⟨q, hq, decide_eq_true (hqname.trans hname)⟩
      obtain ⟨found, hfound⟩ := Option.isSome_iff_exists.1 hfound
      rw [if_pos hname, if_pos hname, hfound]
      rfl
    · rw [if_neg hname, if_neg hname]
      rfl
  · rename_i hnew
    show (s.problems ++ [p]).find? (·.name = name) = _
    rw [List.find?_append]
    by_cases hname : p.name = name
    · have hnone : s.problems.find? (·.name = name) = none := by
        refine List.find?_eq_none.2 fun q hq hqname => hnew ?_
        rw [hname, ← of_decide_eq_true hqname]
        exact List.mem_map_of_mem hq
      simp [hname, hnone]
    · simp [hname, find?]

/-! ## Trials -/

/-- Trials are made of plans in order. All that are made before the first refusal are recorded, each
with its line. -/
theorem attemptAll_cases (s : Suite) (elapsed : Float) (plans : List TrialPlan) :
    ∃ done left trials, plans = done ++ left ∧
      List.Forall₂ (fun plan trial => s.attempt elapsed plan = .ok trial) done trials ∧
      (s.attemptAll elapsed plans).suite = { s with trials := s.trials ++ trials } ∧
      (s.attemptAll elapsed plans).lines = trials.map Trial.line ∧
      ((left = [] ∧ (s.attemptAll elapsed plans).result = .ok trials.length) ∨
        ∃ plan rest fault, left = plan :: rest ∧ s.attempt elapsed plan = .error fault ∧
          (s.attemptAll elapsed plans).result = .error fault) := by
  induction plans generalizing s with
  | nil => exact ⟨[], [], [], rfl, .nil, by simp [attemptAll], rfl, .inl ⟨rfl, rfl⟩⟩
  | cons plan rest ih =>
      rw [attemptAll]
      cases hattempt : s.attempt elapsed plan with
      | error fault =>
          exact ⟨[], plan :: rest, [], rfl, .nil, by simp, rfl, .inr ⟨plan, rest, fault, rfl,
            hattempt, rfl⟩⟩
      | ok trial =>
          obtain ⟨done, left, trials, rfl, hdone, hsuite, hlines, hresult⟩ := ih (s.record trial)
          refine ⟨plan :: done, left, trial :: trials, rfl, .cons hattempt hdone, ?_, ?_, ?_⟩
          · dsimp only
            rw [hsuite, record, List.append_assoc]
            rfl
          · dsimp only
            rw [hlines]
            rfl
          · dsimp only
            obtain ⟨hleft, hcount⟩ | ⟨next, others, fault, hleft, hnext, hfault⟩ := hresult
            · rw [hcount]
              exact .inl ⟨hleft, rfl⟩
            · rw [hfault]
              exact .inr ⟨next, others, fault, hleft, hnext, rfl⟩

/-! ## Reports -/

theorem mem_rows_iff {r : Row} : r ∈ s.rows ↔ ∃ t ∈ s.trials, t.error?.isSome ∧ row t = r := by
  rw [rows, List.mem_eraseDups, List.mem_map]
  simp [successful, and_assoc]

theorem nodup_eraseDups {β : Type} [BEq β] [LawfulBEq β] (items : List β) :
    items.eraseDups.Nodup := by
  induction hlength : items.length using Nat.strongRecOn generalizing items with
  | _ length ih =>
      cases items with
      | nil => exact List.nodup_nil
      | cons item rest =>
          rw [List.eraseDups_cons, List.nodup_cons, List.mem_eraseDups]
          refine ⟨by simp, ih _ ?_ _ rfl⟩
          rw [← hlength]
          exact Nat.lt_succ_of_le (List.length_filter_le _ _)

theorem nodup_rows (s : Suite) : s.rows.Nodup := nodup_eraseDups _

/-- A trial with a result fills its own cell of the report, and no other. -/
theorem cell_record (s : Suite) (t : Trial) (r : Row) (order : Nat) :
    (s.record t).cell r order =
      if t.error?.isSome ∧ row t = r ∧ t.configuration.order.val = order then t.error?
      else s.cell r order := by
  unfold cell record successful
  rw [List.filter_append, List.reverse_append, List.find?_append]
  by_cases hresult : t.error?.isSome
  · by_cases hcell : row t = r ∧ t.configuration.order.val = order
    · simp [hresult, hcell]
    · simp [hresult, hcell]
  · simp [hresult]

/-- A cell is filled exactly if some trial of its row by its rule had a result. -/
theorem isSome_cell_iff {r : Row} {order : Nat} : (s.cell r order).isSome ↔
    ∃ t ∈ s.trials, t.error?.isSome ∧ row t = r ∧ t.configuration.order.val = order := by
  rw [cell]
  constructor
  · intro h
    obtain ⟨error, herror⟩ := Option.isSome_iff_exists.1 h
    obtain ⟨t, hfound, herror⟩ := Option.bind_eq_some_iff.1 herror
    have hcell := List.find?_some hfound
    have hmem := List.mem_filter.1 (List.mem_reverse.1 (List.mem_of_find?_eq_some hfound))
    exact ⟨t, hmem.1, hmem.2, by simpa using hcell⟩
  · rintro ⟨t, hmem, hresult, hcell⟩
    have hsuccess : t ∈ s.successful.reverse :=
      List.mem_reverse.2 (List.mem_filter.2 ⟨hmem, hresult⟩)
    have hfound : (s.successful.reverse.find? fun t =>
        row t = r ∧ t.configuration.order.val = order).isSome :=
      List.find?_isSome.2 ⟨t, hsuccess, decide_eq_true hcell⟩
    obtain ⟨latest, hlatest⟩ := Option.isSome_iff_exists.1 hfound
    have hsome := List.mem_filter.1 (List.mem_reverse.1 (List.mem_of_find?_eq_some hlatest))
    rw [hlatest, Option.bind_some]
    exact hsome.2

end Suite

namespace QuickBenchmark

/-- The quick check is passed exactly if each of its problems is tried and comes close enough. -/
theorem status_check_eq_zero_iff (elapsed : Float) : (check elapsed).status = some 0 ↔
    ∀ name ∈ quickProblems, ∃ t, Suite.standard.attempt elapsed
      ⟨name, .integer 2, .integer Settings.coarse.val⟩ = .ok t ∧ passes t := by
  have hlength (names : List String) (attempt : String → Option Trial) :
      ((names.filterMap attempt).filter passes).length = names.length ↔
        ∀ name ∈ names, ∃ t, attempt name = some t ∧ passes t := by
    rw [List.filter_filterMap, List.filterMap_length_eq_length]
    refine forall₂_congr fun name _ => ?_
    cases attempt name <;> simp [Option.filter]
  unfold check
  dsimp only
  rw [Option.some.injEq, ite_eq_left_iff]
  simp only [Nat.one_ne_zero, imp_false, not_not]
  rw [hlength]
  refine forall₂_congr fun name _ => exists_congr fun t => and_congr_left' ?_
  cases Suite.standard.attempt elapsed ⟨name, .integer 2, .integer Settings.coarse.val⟩ <;>
    simp [Except.toOption]

end QuickBenchmark

end PrefixIntegral
