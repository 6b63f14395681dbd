import Mathlib.Data.List.Forall2
import PrefixIntegral.Console.Command
import PrefixIntegral.Proofs.CommandLines
import PrefixIntegral.Proofs.Formulas
import PrefixIntegral.Proofs.Interchange
import PrefixIntegral.Proofs.Regrouping

/-!
What becomes of a command line that is understood. Its points and its limits are errands, run one
after another up to the first that fails. The status, the lines written and the report tell how far
this went; where the formula cannot be read or the settings are refused, no errand is begun.
-/

namespace PrefixIntegral

/-- Something to compute: the value at a point, or the integral between limits. -/
inductive Errand where
  | value (x : Float)
  | integral (lower upper : Float)

namespace Errand

def line (tree : Tree Float) (c : Configuration) : Errand → Except IntegrationFault String
  | value x => ((tree.evaluate x).map fun value =>
      "f(" ++ String.ofList (Decimal.exact x) ++ ") = " ++
        String.ofList (Decimal.exact value)).mapError .evaluation
  | integral lower upper =>
    (tree.integrate lower upper c .unlimited).result.map fun value =>
      String.ofList (Decimal.exact value)

def remarks (clock : Nat → Float) (tree : Tree Float) (c : Configuration) : Errand → List Remark
  | value _ => []
  | integral lower upper => (tree.integrate lower upper c .unlimited).account tree.formula clock

def Succeed (tree : Tree Float) (c : Configuration) : List Errand → List String → Prop :=
  List.Forall₂ fun errand line => errand.line tree c = .ok line

theorem Succeed.exists_line {tree : Tree Float} {c : Configuration} {done : List Errand}
    {lines : List String} (h : Succeed tree c done lines) {errand : Errand} (hmem : errand ∈ done) :
    ∃ line, errand.line tree c = .ok line := by
  induction h with
  | nil => cases hmem
  | cons hline _ ih =>
      obtain rfl | hrest := List.mem_cons.1 hmem
      · exact ⟨_, hline⟩
      · exact ih hrest

end Errand

theorem Journal.noteAll_append (j : Journal) (first second : List Remark) :
    (j.noteAll (first ++ second)).2 =
      (j.noteAll first).2 ++ ((j.noteAll first).1.noteAll second).2 := by
  induction first generalizing j with
  | nil => rfl
  | cons remark rest ih =>
      show (j.note remark).2 ++ ((j.note remark).1.noteAll (rest ++ second)).2 =
        (j.note remark).2 ++ ((j.note remark).1.noteAll rest).2 ++ _
      rw [ih, List.append_assoc]
      rfl

theorem Sampling.sumInOrder_ne_step {α : Type} [Scalar α] {s : Sampling α} {step : α}
    {chunkSize : Count} (w : Walk α) (passes : Passes) (added : Nat) (total : α)
    (fault : StepFault) :
    (s.sumInOrder step chunkSize w passes added total).result ≠ .error (.step fault) := by
  fun_induction sumInOrder s step chunkSize w passes added total with
  | case1 => rintro ⟨⟩
  | case2 => rintro ⟨⟩
  | case3 _ _ _ _ _ _ _ _ _ ih => exact ih
  | case4 => rintro ⟨⟩

theorem Tree.result_integrate_ne_step {α : Type} [Scalar α] (t : Tree α) (lower upper : α)
    {c : Configuration} (hgrain : Scalar.reaches α c.grain.val = true) (fault : StepFault) :
    (t.integrate lower upper c .unlimited).result ≠ .error (.step fault) := by
  by_cases halone : c.workers.val = 1 ∨ c.batchCount = 1
  · rw [result_integrate_alone halone hgrain, ne_eq, map_eq_error_iff]
    exact Sampling.sumInOrder_ne_step _ _ _ _ fault
  · rw [result_integrate_of_pool halone hgrain, ne_eq, map_eq_error_iff]
    cases (t.sampling lower upper c).addSums (batches lower upper c) (Scalar.ofInt 0) <;> rintro ⟨⟩

namespace Arguments

open Errand (Succeed remarks)

def errands (a : Arguments) : List Errand :=
  a.points.map .value ++ a.limits.toList.map fun limits => .integral limits.1 limits.2

def log (a : Arguments) (clock : Nat → Float) (tree : Tree Float) (c : Configuration)
    (run : List Errand) : List String :=
  journalLines (a.journal.noteAll (tree.account ++ run.flatMap (remarks clock tree c))).2

def isReport (line : String) : Bool := "error: ".toList.isPrefixOf line.toList

theorem isReport_report (message : String) : isReport (report message) = true := by
  rw [isReport, report, String.toList_append, List.isPrefixOf_iff_prefix]
  exact List.prefix_append _ _

theorem countP_isReport_journalLines (written : List (Sink × Entry)) :
    (journalLines written).countP isReport = 0 := by
  refine List.countP_eq_zero.2 fun line hmem => ?_
  obtain ⟨⟨_, severity, text⟩, -, rfl⟩ := List.mem_map.1 hmem
  cases severity <;> simp [Entry.write, Severity.name, isReport]

theorem countP_isReport_append (written : List (Sink × Entry)) (message : String) :
    (journalLines written ++ [report message]).countP isReport = 1 := by
  rw [List.countP_append, countP_isReport_journalLines, List.countP_singleton, isReport_report]
  rfl

theorem valueLines_cases (tree : Tree Float) (c : Configuration) (points : List Float) :
    (∃ lines, valueLines tree points = (lines, none) ∧ Succeed tree c (points.map .value) lines) ∨
    ∃ before x after lines fault, points = before ++ x :: after ∧
      valueLines tree points = (lines, some fault) ∧ Succeed tree c (before.map .value) lines ∧
      tree.evaluate x = .error fault := by
  induction points with
  | nil => exact .inl ⟨[], rfl, .nil⟩
  | cons x rest ih =>
      rw [valueLines]
      cases hvalue : tree.evaluate x with
      | error fault => exact .inr ⟨[], x, rest, [], fault, rfl, rfl, .nil, hvalue⟩
      | ok value =>
          have hline : (Errand.value x).line tree c = .ok (valueLine x value) := by
            rw [Errand.line, hvalue]
            rfl
          obtain ⟨lines, hlines, hsucceed⟩ | ⟨before, y, after, lines, fault, rfl, hlines, hrest⟩ :=
            ih
          · rw [hlines]
            exact .inl ⟨_, rfl, .cons hline hsucceed⟩
          · rw [hlines]
            exact .inr ⟨x :: before, y, after, _, fault, rfl, rfl, .cons hline hrest.1, hrest.2⟩

theorem flatMap_remarks_value (clock : Nat → Float) (tree : Tree Float) (c : Configuration)
    (points : List Float) : (points.map Errand.value).flatMap (remarks clock tree c) = [] := by
  rw [List.flatMap_map]
  exact List.flatMap_eq_nil_iff.2 fun _ _ => rfl

variable {a : Arguments} {render : Symbolic Float → String} {clock : Nat → Float}
  {tree : Tree Float} {c : Configuration} {requested : List String}

theorem log_values (a : Arguments) (clock : Nat → Float) (tree : Tree Float) (c : Configuration)
    (points : List Float) :
    a.log clock tree c (points.map .value) = journalLines (a.journal.noteAll tree.account).2 := by
  rw [log, flatMap_remarks_value, List.append_nil]

theorem log_integral (a : Arguments) (clock : Nat → Float) (tree : Tree Float) (c : Configuration)
    (points : List Float) (lower upper : Float) :
    a.log clock tree c (points.map .value ++ [.integral lower upper]) =
      journalLines (a.journal.noteAll tree.account).2 ++
        journalLines ((a.journal.noteAll tree.account).1.noteAll
          ((tree.integrate lower upper c .unlimited).account tree.formula clock)).2 := by
  rw [log, List.flatMap_append, flatMap_remarks_value, List.nil_append, List.flatMap_singleton,
    Journal.noteAll_append, journalLines, List.map_append]
  rfl

theorem errands_of_none (hlimits : a.limits = none) : a.errands = a.points.map .value := by
  rw [errands, hlimits]
  exact List.append_nil _

theorem errands_of_limits {lower upper : Float} (hlimits : a.limits = some (lower, upper)) :
    a.errands = a.points.map .value ++ [.integral lower upper] := by
  rw [errands, hlimits]
  rfl

/-- What a command comes to whose formula and settings are sound, after the lines requested about
the tree itself: all errands have been run, or all before the first that fails. -/
def Comes (a : Arguments) (clock : Nat → Float) (tree : Tree Float) (c : Configuration)
    (requested : List String) (outcome : Outcome) : Prop :=
  ∃ done left lines, a.errands = done ++ left ∧ Succeed tree c done lines ∧
    outcome.output = requested ++ lines ∧
    ((left = [] ∧ outcome.status = 0 ∧ outcome.errors = a.log clock tree c done) ∨
      ∃ failed rest fault, left = failed :: rest ∧ failed.line tree c = .error fault ∧
        outcome.status = 1 ∧ outcome.errors =
          a.log clock tree c (done ++ [failed]) ++ ["error: " ++ fault.message])

theorem comes_of_succeed (clock : Nat → Float) {lines errors : List String}
    (hsucceed : Succeed tree c a.errands lines) (hlog : a.log clock tree c a.errands = errors) :
    a.Comes clock tree c requested ⟨0, requested ++ lines, errors⟩ :=
  ⟨a.errands, [], lines, (List.append_nil _).symm, hsucceed, rfl, .inl ⟨rfl, rfl, hlog.symm⟩⟩

theorem comes_of_fails (clock : Nat → Float) {done rest : List Errand} {failed : Errand}
    {fault : IntegrationFault} {lines errors : List String}
    (herrands : a.errands = done ++ failed :: rest) (hsucceed : Succeed tree c done lines)
    (hfails : failed.line tree c = .error fault)
    (hlog : a.log clock tree c (done ++ [failed]) = errors) :
    a.Comes clock tree c requested ⟨1, requested ++ lines, errors ++ [report fault.message]⟩ :=
  ⟨done, failed :: rest, lines, herrands, hsucceed, rfl,
    .inr ⟨failed, rest, fault, rfl, hfails, rfl, by rw [hlog, report]⟩⟩

theorem exists_integrated (clock : Nat → Float) {lines : List String}
    (hgrain : Scalar.reaches Float c.grain.val = true)
    (hsucceed : Succeed tree c (a.points.map .value) lines) :
    ∃ outcome, a.integrated clock tree c (a.journal.noteAll tree.account).1 (requested ++ lines)
      (journalLines (a.journal.noteAll tree.account).2) = .ok outcome ∧
      a.Comes clock tree c requested outcome := by
  rw [integrated]
  cases hlimits : a.limits with
  | none =>
      have herrands := errands_of_none hlimits
      rw [← herrands] at hsucceed
      refine ⟨_, rfl, comes_of_succeed clock hsucceed ?_⟩
      rw [herrands, log_values]
  | some limits =>
      obtain ⟨lower, upper⟩ := limits
      have herrands := errands_of_limits hlimits
      have hlog := a.log_integral clock tree c a.points lower upper
      have hline : (Errand.integral lower upper).line tree c =
          (tree.integrate lower upper c .unlimited).result.map fun value =>
            String.ofList (Decimal.exact value) := rfl
      dsimp only
      cases hresult : (tree.integrate lower upper c .unlimited).result with
      | ok value =>
          rw [hresult] at hline
          have hall : Succeed tree c a.errands
              (lines ++ [String.ofList (Decimal.exact value)]) := by
            rw [herrands]
            exact List.rel_append hsucceed (.cons hline .nil)
          rw [← herrands] at hlog
          refine ⟨_, rfl, ?_⟩
          rw [List.append_assoc]
          exact comes_of_succeed clock hall hlog
      | error fault =>
          rw [hresult] at hline
          cases fault with
          | step fault =>
              exact absurd hresult (tree.result_integrate_ne_step lower upper hgrain fault)
          | evaluation | cancelled =>
              exact ⟨_, rfl, comes_of_fails clock herrands hsucceed hline hlog⟩

theorem exists_compute (render : Symbolic Float → String) (clock : Nat → Float)
    (tree : Tree Float) (hsound : a.breakdown = none)
    (hgrain : Scalar.reaches Float c.grain.val = true) :
    ∃ outcome, a.compute render clock tree c (a.journal.noteAll tree.account).1
      (journalLines (a.journal.noteAll tree.account).2) = .ok outcome ∧
      a.Comes clock tree c (a.shown render tree) outcome := by
  rw [compute, hsound, if_neg nofun]
  obtain ⟨lines, hlines, hsucceed⟩ | ⟨before, x, after, lines, fault, hpoints, hlines, hsucceed,
    hfails⟩ := valueLines_cases tree c a.points
  · rw [hlines]
    exact exists_integrated clock hgrain hsucceed
  · have hline : (Errand.value x).line tree c = .error (.evaluation fault) := by
      rw [Errand.line, hfails]
      rfl
    have herrands : a.errands = before.map .value ++ .value x :: (after.map .value ++
        a.limits.toList.map fun limits => .integral limits.1 limits.2) := by
      rw [errands, hpoints, List.map_append, List.append_assoc]
      rfl
    have hlog := a.log_values clock tree c (before ++ [x])
    rw [List.map_append] at hlog
    rw [hlines]
    exact ⟨_, rfl, comes_of_fails clock herrands hsucceed hline hlog⟩

variable {outcome : Outcome}

namespace Comes

theorem status_le (h : a.Comes clock tree c requested outcome) : outcome.status ≤ 1 := by
  obtain ⟨_, _, _, -, -, -, ⟨-, hstatus, -⟩ | ⟨_, _, _, -, -, hstatus, -⟩⟩ := h
  · omega
  · omega

theorem status_eq_one_iff (h : a.Comes clock tree c requested outcome) : outcome.status = 1 ↔
    ∃ errand ∈ a.errands, ∃ fault, errand.line tree c = .error fault := by
  obtain ⟨done, left, lines, herrands, hsucceed, -, ⟨rfl, hstatus, -⟩ |
    ⟨failed, rest, fault, rfl, hfails, hstatus, -⟩⟩ := h
  · refine iff_of_false (by omega) ?_
    rintro ⟨errand, hmem, fault, hfails⟩
    rw [herrands, List.append_nil] at hmem
    obtain ⟨line, hline⟩ := hsucceed.exists_line hmem
    cases hline.symm.trans hfails
  · refine iff_of_true hstatus ⟨failed, ?_, fault, hfails⟩
    rw [herrands]
    exact List.mem_append_right _ List.mem_cons_self

theorem countP_isReport (h : a.Comes clock tree c requested outcome) :
    outcome.errors.countP isReport = outcome.status := by
  obtain ⟨_, _, _, -, -, -, ⟨-, hstatus, herrors⟩ | ⟨_, _, _, -, -, hstatus, herrors⟩⟩ := h
  · rw [hstatus, herrors]
    exact countP_isReport_journalLines _
  · rw [hstatus, herrors]
    exact countP_isReport_append _ _

end Comes

theorem perform_of_unread (render : Symbolic Float → String) (clock : Nat → Float)
    {fault : FormulaFault} (hformula : Formula.read a.formula a.symbol = .error fault) :
    a.perform render clock = .ok ⟨2, [], [report fault.message]⟩ := by
  rw [perform, hformula]

theorem perform_of_accepted (render : Symbolic Float → String) (clock : Nat → Float)
    (hformula : Formula.read a.formula a.symbol = .ok tree)
    (hsettings : Configuration.ofNames a.settings = .ok c) :
    a.perform render clock = a.compute render clock tree c (a.journal.noteAll tree.account).1
      (journalLines (a.journal.noteAll tree.account).2) := by
  simp only [perform, hformula, hsettings]

/-- Settings that are refused are reported, since what the words of a command line give can be
shown. -/
theorem perform_of_refused (render : Symbolic Float → String) (clock : Nat → Float)
    {words : List Text} {fault : SettingFault} (hread : Arguments.read words = .ok a)
    (hformula : Formula.read a.formula a.symbol = .ok tree)
    (hsettings : Configuration.ofNames a.settings = .error fault) :
    a.perform render clock = .ok ⟨2, [], journalLines (a.journal.noteAll tree.account).2 ++
      [report fault.message]⟩ ∧ fault.name = "ConfigurationError" := by
  obtain ⟨complaint, hreport⟩ := exists_report_of_read hread hsettings
  have hmessage : fault.message = complaint := by
    rw [SettingFault.message, hreport]
    rfl
  refine ⟨?_, ?_⟩
  · simp only [perform, hformula, hsettings, hreport, hmessage]
  · rw [SettingFault.name, hreport]
    rfl

theorem valueLines_of_fails {x : Float} {fault : EvaluationFault}
    (hfails : tree.evaluate x = .error fault) (before after : List Float) :
    valueLines tree (before ++ x :: after) = valueLines tree (before ++ [x]) ∧
      (valueLines tree (before ++ [x])).2.isSome := by
  induction before with
  | nil =>
      rw [List.nil_append, List.nil_append, valueLines, valueLines, hfails]
      exact ⟨rfl, rfl⟩
  | cons y rest ih =>
      rw [List.cons_append, List.cons_append, valueLines, valueLines]
      cases tree.evaluate y with
      | error fault => exact ⟨rfl, rfl⟩
      | ok value =>
          rw [ih.1]
          exact ⟨rfl, ih.2⟩

theorem compute_of_fails {before after : List Float} {x : Float} {fault : EvaluationFault}
    (hpoints : a.points = before ++ x :: after) (hfails : tree.evaluate x = .error fault)
    (journal : Journal) (errors : List String) :
    a.compute render clock tree c journal errors =
      { a with points := before ++ [x], limits := none }.compute render clock tree c journal
        errors := by
  obtain ⟨hlines, hsome⟩ := valueLines_of_fails hfails before after
  obtain ⟨first, hfirst⟩ := Option.isSome_iff_exists.1 hsome
  have hpair : valueLines tree (before ++ [x]) = (_, some first) := Prod.ext rfl hfirst
  unfold compute
  rw [hpoints, hlines, hpair]
  rfl

theorem perform_of_fails {before after : List Float} {x : Float}
    (hpoints : a.points = before ++ x :: after)
    (hfails : ∀ tree, Formula.read a.formula a.symbol = .ok tree →
      ∃ fault, tree.evaluate x = .error fault) :
    a.perform render clock =
      { a with points := before ++ [x], limits := none }.perform render clock := by
  have hsettings : settings { a with points := before ++ [x], limits := none } = a.settings := rfl
  simp only [perform, hsettings]
  cases hread : Formula.read a.formula a.symbol with
  | error fault => rfl
  | ok tree =>
      obtain ⟨fault, hfault⟩ := hfails tree hread
      cases Configuration.ofNames a.settings with
      | error fault => rfl
      | ok c => exact compute_of_fails hpoints hfault _ _

end Arguments

namespace Command

open Arguments

/-- The command of a formula that has a value nowhere, with its tree and its symbolic form, and of
one point. -/
def quotient : Arguments where
  formula := "(/ 1 0)".toList
  symbol := ['x']
  points := [1]
  limits := none
  order := .text ['2']
  grain := .text "coarse".toList
  workers := .integer 1
  chunkSize := .integer 8192
  symbolic := true
  tree := true
  level := .minimal
  breakdown := none

def quotientWords : List Text :=
  ["--tree".toList, "--symbolic".toList, "(/ 1 0)".toList, "--eval=1".toList]

theorem read_quotient : Arguments.read quotientWords = .ok quotient := by
  have hpoint (w : Wishes) : w.takeAll [(.points, ['1'])] =
      .ok { w with points := w.points ++ [some 1] } := by
    have hnumber : Decimal.readNumber? ['1'] = some 1 := by decide +kernel
    have hcontent : Wishes.content ['1'] = some ['1'] := rfl
    simp only [Wishes.takeAll, Wishes.take, Wishes.number, hcontent, hnumber, Except.map]
    rfl
  have hread := @Arguments.read_around "(/ 1 0)".toList [(.tree, []), (.symbolic, [])]
    [(.points, ['1'])] _ _ (by decide) rfl rfl (hpoint _)
  exact hread

end Command

end PrefixIntegral
