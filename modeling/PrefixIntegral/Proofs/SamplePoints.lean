import PrefixIntegral.Proofs.Regrouping

namespace PrefixIntegral

variable {α : Type} [Scalar α]

namespace Walk

variable {step : α}

@[simp] theorem length_starts (count : Nat) (x : α) : (starts step count x).length = count := by
  induction count generalizing x with
  | zero => rfl
  | succ count ih => rw [starts, List.length_cons, ih]

theorem starts_add (first second : Nat) (x : α) :
    starts step (first + second) x =
      starts step first x ++ starts step second (advance step first x) := by
  induction first generalizing x with
  | zero => rw [Nat.zero_add, starts, advance, List.nil_append]
  | succ first ih => rw [Nat.succ_add, starts, starts, advance, ih, List.cons_append]

theorem flatten_batches (w : Walk α) (chunkSize : Count) :
    (w.batches step chunkSize).flatten = starts step w.left w.next := by
  fun_induction batches w step chunkSize with
  | case1 w hzero =>
      rw [hzero]
      rfl
  | case2 w hne _ ih =>
      have hle : w.batchLength chunkSize ≤ w.left := Nat.min_le_right _ _
      have hrest : (w.rest step chunkSize).left = w.left - w.batchLength chunkSize := rfl
      rw [List.flatten_cons, ih, batch, hrest, ← Nat.add_sub_cancel' hle, starts_add,
        Nat.add_sub_cancel' hle]
      rfl

theorem starts_eq (hadd : Scalar.AddsExactly α) (count : Nat) (x : α) :
    starts step count x = (List.range count).map fun i => x + Scalar.times i step := by
  induction count with
  | zero => rfl
  | succ count ih =>
      rw [starts_add, ih, advance_eq hadd, List.range_succ, List.map_append]
      rfl

end Walk

namespace Tree

/-- The points at which an integration evaluates, batch by batch and, in a batch, sub-interval by
sub-interval. -/
def samplePoints (lower upper : α) (c : Configuration) : List α :=
  (batches lower upper c).flatMap fun starts => starts.flatMap fun x =>
    (c.order.offsets (c.order.scale (Step.between lower upper c.grain.val).width).delta).map (x + ·)

variable {lower upper : α} {c : Configuration}

theorem samplePoints_eq_points (t : Tree α) : samplePoints lower upper c =
    (batches lower upper c).flatMap fun starts =>
      ((t.sampling lower upper c).points starts).values :=
  rfl

theorem samplePoints_eq : samplePoints lower upper c =
    (Walk.starts (Step.between lower upper c.grain.val).width c.grain.val lower).flatMap fun x =>
      (c.order.offsets (c.order.scale (Step.between lower upper c.grain.val).width).delta).map
        (x + ·) := by
  rw [samplePoints, ← Walk.flatten_batches ⟨lower, c.grain.val⟩ c.chunkSize, ← List.flatMap_id,
    List.flatMap_assoc]
  rfl

theorem length_samplePoints : (samplePoints lower upper c).length = c.evaluations := by
  simp [samplePoints_eq, List.length_flatMap, Order.offsets, Configuration.evaluations]

end Tree

end PrefixIntegral
