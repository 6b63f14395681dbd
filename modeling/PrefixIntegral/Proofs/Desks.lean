import PrefixIntegral.Proofs.Outcome
import PrefixIntegral.Quadrature.Desk

/-!
What a desk keeps. A request changes at most one integral and only the part it is about; one that is
refused changes nothing. So integrals that were copied from one another go their own ways, and
whatever stands on a desk after any requests is a sound integral of a tree that came with one of
them.
-/

namespace PrefixIntegral

/-- What an integrand stands for: a tree for itself, a formula for what it is read as over a
symbol. -/
inductive Integrand.Gives (symbol : Text) : Integrand → Tree Float → Prop
  | formula {text : Text} {tree : Tree Float} : Formula.read text symbol = .ok tree →
      Gives symbol (.formula text) tree
  | tree (given : Tree Float) : Gives symbol (.tree given) given

theorem Integrand.resolve_iff {symbol : Text} {integrand : Integrand} {tree : Tree Float} :
    integrand.resolve symbol = .ok tree ↔ integrand.Gives symbol tree := by
  constructor
  · intro h
    cases integrand with
    | formula text =>
        rw [resolve] at h
        cases hread : Formula.read text symbol with
        | error fault =>
            rw [hread] at h
            cases h
        | ok found =>
            rw [hread] at h
            cases h
            exact .formula hread
    | tree given =>
        cases h
        exact .tree _
    | other given => cases h
  · intro h
    cases h with
    | formula hread =>
        rw [resolve, hread]
        rfl
    | tree => rfl

namespace Integral

open PrefixIntegral.Configuration (given)

theorem adjusted_iff {β : Type} {resolve : Setting → Except SettingFault β}
    {change : Configuration → Setting → Except SettingFault Configuration}
    {part : Configuration → β} {set : Configuration → β → Configuration}
    (hchange : ∀ c setting, change c setting = (resolve setting).map (set c))
    (hset : ∀ c, set c (part c) = c) {c after : Configuration} {setting : Option Setting} :
    adjusted change c setting = .ok after ↔
      ∃ value, given resolve (part c) setting = .ok value ∧ after = set c value := by
  cases setting with
  | none => simp [adjusted, given, hset, eq_comm]
  | some setting =>
      rw [adjusted, given, hchange]
      cases resolve setting with
      | error fault => exact iff_of_false (by rintro ⟨⟩) (by rintro ⟨_, ⟨⟩, _⟩)
      | ok value =>
          constructor
          · rintro ⟨⟩
            exact ⟨value, rfl, rfl⟩
          · rintro ⟨_, ⟨⟩, rfl⟩
            rfl

theorem adjusted_withOrder_iff {c after : Configuration} {setting : Option Setting} :
    adjusted Configuration.withOrder c setting = .ok after ↔
      ∃ order, given Settings.resolveOrder c.order setting = .ok order ∧
        after = { c with order } :=
  adjusted_iff (fun _ _ => rfl) fun _ => rfl

theorem adjusted_withGrain_iff {c after : Configuration} {setting : Option Setting} :
    adjusted Configuration.withGrain c setting = .ok after ↔
      ∃ grain, given Settings.resolveGrain c.grain setting = .ok grain ∧
        after = { c with grain } :=
  adjusted_iff (fun _ _ => rfl) fun _ => rfl

theorem make_iff {integrand : Integrand} {order grain : Option Setting} {symbol : Text}
    {c : Configuration} {i : Integral} : make integrand order grain symbol c = .ok i ↔
      ∃ tree, integrand.Gives symbol tree ∧
        ∃ o, given Settings.resolveOrder c.order order = .ok o ∧
          ∃ g, given Settings.resolveGrain c.grain grain = .ok g ∧
            i = ⟨tree, { c with order := o, grain := g }⟩ := by
  have hbind : make integrand order grain symbol c = (integrand.resolve symbol).bind fun tree =>
      (adjusted Configuration.withOrder c order).bind fun c =>
        (adjusted Configuration.withGrain c grain).bind fun c => .ok ⟨tree, c⟩ := rfl
  simp only [hbind, bind_eq_ok_iff, Integrand.resolve_iff, adjusted_withOrder_iff,
    adjusted_withGrain_iff, Except.ok.injEq]
  constructor
  · rintro ⟨tree, htree, _, ⟨o, ho, rfl⟩, _, ⟨g, hg, rfl⟩, rfl⟩
    exact ⟨tree, htree, o, ho, g, hg, rfl⟩
  · rintro ⟨tree, htree, o, ho, g, hg, rfl⟩
    exact ⟨tree, htree, _, ⟨o, ho, rfl⟩, _, ⟨g, hg, rfl⟩, rfl⟩

theorem setFormula_iff {i j : Integral} {integrand : Integrand} {symbol : Option Text} :
    i.setFormula integrand symbol = .ok j ↔
      ∃ chosen tree, (symbol.getD [] = [] → chosen = i.tree.symbol) ∧
        (symbol.getD [] ≠ [] → symbol = some chosen) ∧ integrand.Gives chosen tree ∧
          j = { i with tree } := by
  have hchosen (chosen : Text) :
      (integrand.resolve chosen).map (fun tree => { i with tree }) = .ok j ↔
        ∃ tree, integrand.Gives chosen tree ∧ j = { i with tree } := by
    simp only [map_eq_ok_iff, Integrand.resolve_iff]
    exact exists_congr fun tree => and_congr_right fun _ => eq_comm
  match symbol with
  | none | some [] => simp [setFormula, hchosen]
  | some (c :: rest) => simp [setFormula, hchosen]

theorem setOrder_iff {i j : Integral} {setting : Setting} : i.setOrder setting = .ok j ↔
    ∃ order, Settings.resolveOrder setting = .ok order ∧
      j = { i with configuration := { i.configuration with order } } := by
  simp only [setOrder, map_eq_ok_iff, adjusted_withOrder_iff, given]
  constructor
  · rintro ⟨_, ⟨order, horder, rfl⟩, rfl⟩
    exact ⟨order, horder, rfl⟩
  · rintro ⟨order, horder, rfl⟩
    exact ⟨_, ⟨order, horder, rfl⟩, rfl⟩

theorem setGrain_iff {i j : Integral} {setting : Setting} : i.setGrain setting = .ok j ↔
    ∃ grain, Settings.resolveGrain setting = .ok grain ∧
      j = { i with configuration := { i.configuration with grain } } := by
  simp only [setGrain, map_eq_ok_iff, adjusted_withGrain_iff, given]
  constructor
  · rintro ⟨_, ⟨grain, hgrain, rfl⟩, rfl⟩
    exact ⟨grain, hgrain, rfl⟩
  · rintro ⟨grain, hgrain, rfl⟩
    exact ⟨_, ⟨grain, hgrain, rfl⟩, rfl⟩

end Integral

namespace DeskRequest

def writes : DeskRequest → Option String
  | make id .. | setFormula id .. | setOrder id _ | setGrain id _ => some id
  | copy _ target => some target
  | integrate .. | step .. => none

inductive Brings : DeskRequest → Tree Float → Prop
  | make {id : String} {integrand : Integrand} {order grain : Option Setting} {symbol : Text}
      {c : Configuration} {tree : Tree Float} : integrand.Gives symbol tree →
      Brings (.make id integrand order grain symbol c) tree
  | setFormula {id : String} {integrand : Integrand} {symbol : Option Text} {chosen : Text}
      {tree : Tree Float} : integrand.Gives chosen tree →
      Brings (.setFormula id integrand symbol) tree

def Effect (d after : Desk) : DeskRequest → Prop
  | .make id integrand order grain symbol c =>
    ∃ tree, integrand.Gives symbol tree ∧
      ∃ o, Configuration.given Settings.resolveOrder c.order order = .ok o ∧
        ∃ g, Configuration.given Settings.resolveGrain c.grain grain = .ok g ∧
          after.find? id = some ⟨tree, { c with order := o, grain := g }⟩
  | .integrate .. | .step .. => after = d
  | .setFormula id integrand symbol => ∀ i, d.find? id = some i →
    ∃ chosen tree, (symbol.getD [] = [] → chosen = i.tree.symbol) ∧
      (symbol.getD [] ≠ [] → symbol = some chosen) ∧ integrand.Gives chosen tree ∧
        after.find? id = some { i with tree }
  | .setOrder id setting => ∀ i, d.find? id = some i →
    ∃ order, Settings.resolveOrder setting = .ok order ∧
      after.find? id = some { i with configuration := { i.configuration with order } }
  | .setGrain id setting => ∀ i, d.find? id = some i →
    ∃ grain, Settings.resolveGrain setting = .ok grain ∧
      after.find? id = some { i with configuration := { i.configuration with grain } }
  | .copy id target => ∀ i, d.find? id = some i → after.find? target = some i

end DeskRequest

namespace Desk

variable {d : Desk} {id : String}

theorem find?_put_self (d : Desk) (id : String) (i : Integral) :
    (d.put id i).find? id = some i := by
  simp [put, find?]

theorem lookup_filter_of_ne (d : Desk) {id other : String} (h : other ≠ id) :
    (d.filter fun entry => entry.1 != id).lookup other = d.lookup other := by
  induction d with
  | nil => rfl
  | cons entry rest ih =>
      obtain ⟨name, integral⟩ := entry
      by_cases hname : name = id
      · subst hname
        simpa [List.lookup_cons, beq_false_of_ne h] using ih
      · by_cases hother : other = name
        · simp [hname, hother]
        · simpa [List.lookup_cons, hname, beq_false_of_ne hother] using ih

theorem find?_put_of_ne (d : Desk) {id other : String} (h : other ≠ id) (i : Integral) :
    (d.put id i).find? other = d.find? other := by
  rw [put, find?, List.lookup_cons, beq_false_of_ne h]
  exact d.lookup_filter_of_ne h

theorem find?_accept_of_ne {other : String} (h : other ≠ id)
    (result : Except IntegralFault Integral) :
    (d.accept id result).1.find? other = d.find? other := by
  cases result with
  | error fault => rfl
  | ok i => exact d.find?_put_of_ne h i

theorem accept_of_error {result : Except IntegralFault Integral} {fault : IntegralFault}
    (h : (d.accept id result).2.result = .error fault) : (d.accept id result).1 = d := by
  cases result with
  | error fault => rfl
  | ok i => cases h

theorem accept_of_ok {result : Except IntegralFault Integral} {value : Option Float}
    (h : (d.accept id result).2.result = .ok value) :
    ∃ i, result = .ok i ∧ (d.accept id result).1.find? id = some i := by
  cases result with
  | error fault => cases h
  | ok i => exact ⟨i, rfl, d.find?_put_self id i⟩

theorem withIntegral_of_error {work : Integral → Desk × DeskReply} {fault : IntegralFault}
    (hwork : ∀ i, (work i).2.result = .error fault → (work i).1 = d)
    (h : (d.withIntegral id work).2.result = .error fault) : (d.withIntegral id work).1 = d := by
  rw [withIntegral] at h ⊢
  cases hfind : d.find? id with
  | none => rfl
  | some i =>
      rw [hfind] at h
      exact hwork i h

theorem find?_withIntegral {work : Integral → Desk × DeskReply} {other : String}
    (hwork : ∀ i, (work i).1.find? other = d.find? other) :
    (d.withIntegral id work).1.find? other = d.find? other := by
  rw [withIntegral]
  cases d.find? id with
  | none => rfl
  | some i => exact hwork i

theorem answer_of_writes_eq_none {request : DeskRequest} (h : request.writes = none) :
    (d.answer request).1 = d := by
  cases request with
  | integrate id lower upper passes =>
      rw [answer, withIntegral]
      cases d.find? id <;> rfl
  | step id lower upper =>
      rw [answer, withIntegral]
      cases d.find? id with
      | none => rfl
      | some i =>
          dsimp only
          cases i.step lower upper <;> rfl
  | _ => cases h

theorem answer_of_error {request : DeskRequest} {fault : IntegralFault}
    (h : (d.answer request).2.result = .error fault) : (d.answer request).1 = d := by
  cases request with
  | make => exact accept_of_error h
  | setFormula | setOrder | setGrain => exact withIntegral_of_error (fun i => accept_of_error) h
  | copy => exact withIntegral_of_error (fun i hi => nomatch hi) h
  | integrate | step => exact answer_of_writes_eq_none rfl

theorem find?_answer_of_ne {request : DeskRequest} (h : request.writes ≠ some id) :
    (d.answer request).1.find? id = d.find? id := by
  have hne {name : String} (hname : some name ≠ some id) : id ≠ name := fun heq =>
    hname (congrArg some heq.symm)
  cases request with
  | make => exact find?_accept_of_ne (hne h) _
  | setFormula | setOrder | setGrain =>
      exact find?_withIntegral fun i => find?_accept_of_ne (hne h) _
  | copy => exact find?_withIntegral fun i => d.find?_put_of_ne (hne h) i
  | integrate | step => rw [answer_of_writes_eq_none rfl]

theorem find?_answerAll_of_ne {requests : List DeskRequest}
    (h : ∀ request ∈ requests, request.writes ≠ some id) :
    (d.answerAll requests).1.find? id = d.find? id := by
  induction requests generalizing d with
  | nil => rfl
  | cons request rest ih =>
      obtain ⟨hfirst, hrest⟩ := List.forall_mem_cons.1 h
      rw [answerAll]
      exact (ih hrest).trans (find?_answer_of_ne hfirst)

theorem effect_of_ok {request : DeskRequest} {value : Option Float}
    (h : (d.answer request).2.result = .ok value) : request.Effect d (d.answer request).1 := by
  cases request with
  | make id integrand order grain symbol c =>
      obtain ⟨i, hmake, hfind⟩ := accept_of_ok h
      obtain ⟨tree, htree, o, ho, g, hg, rfl⟩ := Integral.make_iff.1 hmake
      exact ⟨tree, htree, o, ho, g, hg, hfind⟩
  | integrate | step => exact answer_of_writes_eq_none rfl
  | setFormula id integrand symbol =>
      intro i hi
      rw [answer, withIntegral, hi] at h ⊢
      obtain ⟨j, hset, hfind⟩ := accept_of_ok h
      obtain ⟨chosen, tree, hsame, hown, hgives, rfl⟩ := Integral.setFormula_iff.1 hset
      exact ⟨chosen, tree, hsame, hown, hgives, hfind⟩
  | setOrder id setting =>
      intro i hi
      rw [answer, withIntegral, hi] at h ⊢
      obtain ⟨j, hset, hfind⟩ := accept_of_ok h
      obtain ⟨order, horder, rfl⟩ := Integral.setOrder_iff.1 hset
      exact ⟨order, horder, hfind⟩
  | setGrain id setting =>
      intro i hi
      rw [answer, withIntegral, hi] at h ⊢
      obtain ⟨j, hset, hfind⟩ := accept_of_ok h
      obtain ⟨grain, hgrain, rfl⟩ := Integral.setGrain_iff.1 hset
      exact ⟨grain, hgrain, hfind⟩
  | copy id target =>
      intro i hi
      rw [answer, withIntegral, hi]
      exact d.find?_put_self target i

section Trees

variable {P : Tree Float → Prop}

theorem all_accept (hd : ∀ id i, d.find? id = some i → P i.tree)
    {result : Except IntegralFault Integral} (hresult : ∀ i, result = .ok i → P i.tree) :
    ∀ other i, (d.accept id result).1.find? other = some i → P i.tree := by
  intro other i hi
  cases result with
  | error fault => exact hd other i hi
  | ok j =>
      by_cases hother : other = id
      · subst hother
        rw [accept, d.find?_put_self] at hi
        cases hi
        exact hresult _ rfl
      · rw [accept, d.find?_put_of_ne hother] at hi
        exact hd other i hi

theorem all_withIntegral (hd : ∀ id i, d.find? id = some i → P i.tree)
    {work : Integral → Desk × DeskReply}
    (hwork : ∀ i, P i.tree → ∀ other j, (work i).1.find? other = some j → P j.tree) :
    ∀ other i, (d.withIntegral id work).1.find? other = some i → P i.tree := by
  rw [withIntegral]
  cases hfind : d.find? id with
  | none => exact hd
  | some i => exact hwork i (hd id i hfind)

theorem all_answer (hd : ∀ id i, d.find? id = some i → P i.tree) {request : DeskRequest}
    (hrequest : ∀ tree, request.Brings tree → P tree) :
    ∀ id i, (d.answer request).1.find? id = some i → P i.tree := by
  cases request with
  | make id integrand order grain symbol c =>
      refine all_accept hd fun i hi => ?_
      obtain ⟨tree, htree, _, -, _, -, rfl⟩ := Integral.make_iff.1 hi
      exact hrequest tree (.make htree)
  | setFormula id integrand symbol =>
      refine all_withIntegral hd fun i _ => all_accept hd fun j hj => ?_
      obtain ⟨chosen, tree, -, -, hgives, rfl⟩ := Integral.setFormula_iff.1 hj
      exact hrequest tree (.setFormula hgives)
  | setOrder id setting =>
      refine all_withIntegral hd fun i hi => all_accept hd fun j hj => ?_
      obtain ⟨order, -, rfl⟩ := Integral.setOrder_iff.1 hj
      exact hi
  | setGrain id setting =>
      refine all_withIntegral hd fun i hi => all_accept hd fun j hj => ?_
      obtain ⟨grain, -, rfl⟩ := Integral.setGrain_iff.1 hj
      exact hi
  | copy id target =>
      refine all_withIntegral hd fun i hi => ?_
      exact all_accept hd fun j hj => Except.ok.inj hj ▸ hi
  | integrate | step => rwa [answer_of_writes_eq_none rfl]

theorem all_answerAll (hd : ∀ id i, d.find? id = some i → P i.tree) {requests : List DeskRequest}
    (hrequests : ∀ request ∈ requests, ∀ tree, request.Brings tree → P tree) :
    ∀ id i, (d.answerAll requests).1.find? id = some i → P i.tree := by
  induction requests generalizing d with
  | nil => exact hd
  | cons request rest ih =>
      obtain ⟨hfirst, hrest⟩ := List.forall_mem_cons.1 hrequests
      exact ih (all_answer hd hfirst) hrest

end Trees

/-- After any requests, an integral on the desk is sound, and its tree came with one of them. A
further request that is refused changes nothing at all; one that is granted does what it is for and
leaves every other integral alone. A copy is the same as its original, and as long as requests write
only one of the two, the other stays as it is. -/
theorem integrals_stand_apart (requests : List DeskRequest) :
    let d := (Desk.answerAll [] requests).1
    (∀ id i, d.find? id = some i →
      (∃ request ∈ requests, request.Brings i.tree) ∧ i.tree.nodes.validate 0 = .ok () ∧
        i.configuration.order.val ≤ 5 ∧ 0 < i.configuration.grain.val ∧
          0 < i.configuration.chunkSize.val ∧ 0 < i.configuration.workers.val) ∧
    (∀ request,
      (∀ fault, (d.answer request).2.result = .error fault → (d.answer request).1 = d) ∧
      (∀ value, (d.answer request).2.result = .ok value →
        request.Effect d (d.answer request).1) ∧
      ∀ id, request.writes ≠ some id → (d.answer request).1.find? id = d.find? id) ∧
    ∀ id target i, d.find? id = some i → ∀ later : List DeskRequest,
      let copied := (d.answer (.copy id target)).1
      copied.find? target = some i ∧ copied.find? id = some i ∧
      ((∀ request ∈ later, request.writes ≠ some target) →
        (copied.answerAll later).1.find? target = some i) ∧
      ((∀ request ∈ later, request.writes ≠ some id) →
        (copied.answerAll later).1.find? id = some i) := by
  intro d
  refine ⟨?_, ?_, ?_⟩
  · intro id i hi
    have hbrought : ∃ request ∈ requests, request.Brings i.tree :=
      @all_answerAll [] (fun tree => ∃ request ∈ requests, request.Brings tree)
        (fun _ _ h => nomatch h) requests
        (fun request hmem tree hbrings => ⟨request, hmem, hbrings⟩) id i hi
    have horder := i.configuration.order.isLt
    exact ⟨hbrought, i.tree.valid, by omega, i.configuration.grain.property,
      i.configuration.chunkSize.property, i.configuration.workers.property⟩
  · intro request
    exact ⟨fun fault => answer_of_error, fun value => effect_of_ok, fun id => find?_answer_of_ne⟩
  · intro id target i hi later copied
    have hcopied : copied = d.put target i := by
      show (d.answer (.copy id target)).1 = _
      rw [answer, withIntegral, hi]
    have htarget : copied.find? target = some i := by
      rw [hcopied, d.find?_put_self]
    have hid : copied.find? id = some i := by
      by_cases hsame : id = target
      · rw [hsame, htarget]
      · rw [hcopied, d.find?_put_of_ne hsame, hi]
    refine ⟨htarget, hid, fun hlater => ?_, fun hlater => ?_⟩
    · rw [find?_answerAll_of_ne hlater, htarget]
    · rw [find?_answerAll_of_ne hlater, hid]

end Desk

end PrefixIntegral
