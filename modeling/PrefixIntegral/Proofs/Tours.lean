import PrefixIntegral.Console.Tour
import PrefixIntegral.Proofs.Configurations
import PrefixIntegral.Proofs.Grids

/-!
What a tour shows. Sampled values are those that a tree has at the points, and the distances of a
table are those of the integrals that its rules make, however the tour comes by them.
-/

namespace PrefixIntegral.Tour

open PrefixIntegral.Tree (evaluateMany_eq_ok_iff evaluateMany_fails_iff_of_points)

variable {t : Tree Float}

theorem samplePoints_ne_nil : samplePoints ≠ [] := List.cons_ne_nil _ _

/-- Where a tree has a value at every sample point, each is shown in a line of its own. -/
theorem sampleLines_of_values (hpowers : t.PowersAgree) {values : List Float}
    (hvalues : samplePoints.map t.evaluate = values.map .ok) :
    sampleLines t = ["", "Sampled values:"] ++ (samplePoints.zip values).map fun line =>
      s!"  f({places 2 line.1}) = {places 10 line.2}" := by
  have hok : t.evaluateMany ⟨[samplePoints.length], samplePoints⟩ =
      .ok ⟨[samplePoints.length], values⟩ :=
    (evaluateMany_eq_ok_iff hpowers samplePoints_ne_nil).2 ⟨rfl, hvalues⟩
  rw [sampleLines, hok]

/-- Where it has none at some sample point, only a fault is shown. -/
theorem sampleLines_of_fails (hpowers : t.PowersAgree) {x : Float} (hx : x ∈ samplePoints)
    {fault : EvaluationFault} (hfails : t.evaluate x = .error fault) :
    ∃ first : EvaluationFault, sampleLines t = ["", "Sampled values:", first.message] := by
  obtain ⟨first, hfirst⟩ :=
    (evaluateMany_fails_iff_of_points hpowers samplePoints_ne_nil
      (g := ⟨[samplePoints.length], samplePoints⟩)).2 ⟨x, hx, fault, hfails⟩
  rw [sampleLines, hfirst]
  exact ⟨first, rfl⟩

/-- An integral of a formula by a rule over a count of sub-intervals is that of its tree. -/
theorem integralOf_eq {formula : String} (hread : Formula.read formula.toList
    Formula.defaultSymbol = .ok t) (order : Order) (grain : Count) (c : Configuration) :
    integralOf formula (some (.integer order.val)) (some (.integer grain.val)) c =
      .ok ⟨t, { c with order, grain }⟩ := by
  have horder : c.withOrder (.integer order.val) = .ok { c with order } := by
    rw [Configuration.withOrder, Settings.resolveOrder_order]
    rfl
  have hgrain (d : Configuration) : d.withGrain (.integer grain.val) = .ok { d with grain } := by
    rw [Configuration.withGrain, Settings.resolveGrain_count]
    rfl
  rw [integralOf, Integral.make, Integrand.resolve, hread]
  simp only [Integral.adjusted, Except.mapError, horder, hgrain, bind, Except.bind]
  rfl

/-- The distances of a table are those of the values that its rules come to. -/
theorem distance_eq {formula : String} (hread : Formula.read formula.toList
    Formula.defaultSymbol = .ok t) (lower upper exact : Float) (order : Order) (grain : Count) :
    let c : Configuration := { Configuration.default with order, grain }
    distance formula lower upper exact order.val grain.val =
      ((t.integrate lower upper c .unlimited).result.toOption.map fun value =>
        (value - exact).abs).getD (0 / 0) := by
  intro c
  rw [distance, integralOf_eq hread]
  dsimp only [Integral.integrate]
  cases (t.integrate lower upper c .unlimited).result <;> rfl

/-- A faulty formula is one that cannot be read; a line tells its fault. -/
theorem faultLine?_isSome_iff (formula : String) : (faultLine? formula).isSome ↔
    ∃ fault, Formula.read formula.toList Formula.defaultSymbol = .error fault := by
  rw [faultLine?]
  cases Formula.read formula.toList Formula.defaultSymbol <;> simp

end PrefixIntegral.Tour
