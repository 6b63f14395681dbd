import Mathlib.Algebra.Order.Field.Basic
import Mathlib.Order.Interval.Set.Basic
import PrefixIntegral.Proofs.Exact
import PrefixIntegral.Proofs.SamplePoints
import PrefixIntegral.Proofs.Structural

namespace PrefixIntegral

theorem Term.map_id {β : Type} (t : Term β) : map (fun content => content) t = t := by
  induction t with
  | leaf content => rfl
  | apply op operands ih => rw [map_apply, List.map_congr_left ih, List.map_id']

namespace Term.Fits

variable {β : Type} {passes : β → Prop} {op : Operator} {first second : Term β}

theorem single (hop : op.arity.accepts 1) (hfirst : first.Fits passes) :
    (.apply op [first] : Term β).Fits passes :=
  .apply hop (List.forall_mem_singleton.2 hfirst)

theorem pair (hop : op.arity.accepts 2) (hfirst : first.Fits passes)
    (hsecond : second.Fits passes) : (.apply op [first, second] : Term β).Fits passes :=
  .apply hop (List.forall_mem_cons.2 ⟨hfirst, List.forall_mem_singleton.2 hsecond⟩)

end Term.Fits

variable [Elementary ℚ]

namespace Tree

variable {lower upper : ℚ} {c : Configuration} {t : Tree ℚ} {f : ℚ → ℚ}

/-- The interval that an integration goes over, whichever limit is greater. -/
def span (lower upper : ℚ) : Set ℚ := Set.Icc lower (lower + |upper - lower|)

omit [Elementary ℚ] in
theorem grain_mul_step (lower upper : ℚ) (c : Configuration) :
    (c.grain.val : ℚ) * (|upper - lower| / c.grain.val) = |upper - lower| :=
  mul_div_cancel₀ _ (Nat.cast_ne_zero.2 (Nat.ne_of_gt c.grain.property))

omit [Elementary ℚ] in
theorem step_nonneg (lower upper : ℚ) (c : Configuration) :
    0 ≤ |upper - lower| / c.grain.val :=
  div_nonneg (abs_nonneg _) (Nat.cast_nonneg _)

theorem mem_samplePoints {point : ℚ} : point ∈ samplePoints lower upper c ↔
    ∃ i < c.grain.val, ∃ j ≤ c.order.val,
      let step := |upper - lower| / c.grain.val
      point = lower + i * step + j * (c.order.scale step).delta := by
  simp only [samplePoints_eq, Walk.starts_eq Scalar.addsExactly_rational, Step.width_between,
    Int.cast_natCast, Scalar.times_rational, Order.offsets, Scalar.ofNat_rational, List.mem_flatMap,
    List.mem_map, List.mem_range, Nat.lt_succ_iff]
  constructor
  · rintro ⟨_, ⟨i, hi, rfl⟩, _, ⟨j, hj, rfl⟩, rfl⟩
    exact ⟨i, hi, j, hj, rfl⟩
  · rintro ⟨i, hi, j, hj, rfl⟩
    exact ⟨_, ⟨i, hi, rfl⟩, _, ⟨j, hj, rfl⟩, rfl⟩

/-- A tree has the values of a function at certain points, one by one and over grids. -/
structure Computes (t : Tree ℚ) (f : ℚ → ℚ) (points : Set ℚ) : Prop where
  powersAgree : t.PowersAgree
  evaluate : ∀ x ∈ points, t.evaluate x = .ok (f x)

theorem Computes.mono {points others : Set ℚ} (h : t.Computes f points)
    (hsubset : others ⊆ points) : t.Computes f others :=
  ⟨h.powersAgree, fun x hx => h.evaluate x (hsubset hx)⟩

/-- An integration of a tree with values at the points that it evaluates comes to a value, by the
composite rule, whatever the batches and the workers. -/
theorem Computes.result_integrate (h : t.Computes f {x | x ∈ samplePoints lower upper c}) :
    (t.integrate lower upper c .unlimited).result =
      .ok (c.order.composite (|upper - lower| / c.grain.val) c.grain.val f lower) :=
  result_integrate_exact h.powersAgree fun i hi j hj =>
    h.evaluate _ (mem_samplePoints.2 ⟨i, hi, j, hj, rfl⟩)

theorem computes_toTree {term : Term (Leaf ℚ)} (hfits : term.Fits Leaf.IsNumber) (symbol : Text)
    (hpowers : ∀ node ∈ Term.nodes Leaf.node 0 term, node.kind ≠ .operator .pow)
    {points : Set ℚ} (hvalues : ∀ x ∈ points, term.evaluateFrom x 0 = .ok (f x)) :
    (term.toTree hfits symbol).Computes f points := by
  refine ⟨?_, fun x hx => ?_⟩
  · rintro ⟨i, hi, hkind, -⟩
    exact absurd hkind (hpowers _ (List.mem_toArray.1 (Array.getElem_mem hi)))
  · have hlayout : (term.toTree hfits symbol).nodes.toList.map Node.plain =
        Term.nodes Leaf.node 0 term := by
      have hplain := Term.map_nodes Leaf.plain_node (fun _ _ => rfl) 0 term
      rwa [Term.map_id] at hplain
    have hevaluate := foldAt?_evaluateFrom (x := x) (begins_zero hlayout)
    rw [foldAt?, dif_pos (size_pos _)] at hevaluate
    exact (Option.some.inj hevaluate).trans (hvalues x hx)

end Tree

/-- Arithmetic in which the sine is any given function. -/
@[reducible] def Elementary.ofSine (f : ℚ → ℚ) : Elementary ℚ :=
  ⟨fun _ _ => 0, fun _ => 0, f, fun _ => 0, fun _ => 0, fun _ => 0, fun _ => 0⟩

namespace Tree

theorem fits_sine : (.apply .sin [.leaf .argument] : Term (Leaf ℚ)).Fits Leaf.IsNumber :=
  .single rfl (.leaf trivial)

def sine : Tree ℚ := Term.toTree (.apply .sin [.leaf .argument]) fits_sine ['x']

omit [Elementary ℚ] in
theorem computes_sine (f : ℚ → ℚ) (points : Set ℚ) :
    letI := Elementary.ofSine f
    sine.Computes f points := by
  let _ := Elementary.ofSine f
  refine computes_toTree fits_sine _ ?_ fun x _ => rfl
  simp [Term.nodes, Term.nodesOfAll, Node.operator, Leaf.node, Node.argument]

end Tree

end PrefixIntegral
