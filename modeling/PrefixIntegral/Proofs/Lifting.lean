import PrefixIntegral.Proofs.Lanes
import Mathlib.Data.List.Forall2

/-!
Two evaluations side by side. A relation of numbers is lifted to one of values, single numbers or
numbers at many points. Operations that take related numbers to related numbers then take related
values to related values.
-/

namespace PrefixIntegral

variable {α β γ ι ε : Type}

/-- Both results are values and these are related, or both are the same fault. -/
inductive AgreeUpTo (R : β → γ → Prop) : Except ε β → Except ε γ → Prop
  | ok {v : β} {w : γ} : R v w → AgreeUpTo R (.ok v) (.ok w)
  | error (fault : ε) : AgreeUpTo R (.error fault) (.error fault)

namespace AgreeUpTo

variable {R S : β → β → Prop} {first second : Except ε β}

theorem mono (hRS : ∀ v w, R v w → S v w) (h : AgreeUpTo R first second) :
    AgreeUpTo S first second := by
  cases h with
  | ok hvw => exact .ok (hRS _ _ hvw)
  | error fault => exact .error fault

theorem eq_iff : AgreeUpTo Eq first second ↔ first = second := by
  constructor
  · intro h
    cases h with
    | ok hvw => rw [hvw]
    | error fault => rfl
  · rintro rfl
    cases first with
    | ok v => exact .ok rfl
    | error fault => exact .error fault

theorem map {δ : Type} {T : δ → δ → Prop} {f g : β → δ} (h : AgreeUpTo R first second)
    (hfg : ∀ v w, R v w → T (f v) (g w)) : AgreeUpTo T (first.map f) (second.map g) := by
  cases h with
  | ok hvw => exact .ok (hfg _ _ hvw)
  | error fault => exact .error fault

theorem bind {δ : Type} {T : δ → δ → Prop} {f g : β → Except ε δ} (h : AgreeUpTo R first second)
    (hfg : ∀ v w, R v w → AgreeUpTo T (f v) (g w)) :
    AgreeUpTo T (first.bind f) (second.bind g) := by
  cases h with
  | ok hvw => exact hfg _ _ hvw
  | error fault => exact .error fault

theorem attach (h : AgreeUpTo R first second) :
    AgreeUpTo (fun v w => R v w ∧ first = .ok v ∧ second = .ok w) first second := by
  cases h with
  | ok hvw => exact .ok ⟨hvw, rfl, rfl⟩
  | error fault => exact .error fault

end AgreeUpTo

/-- Two lists with as many items as a third, related in pairs as its items say. -/
inductive RelatedAlong (R : ι → β → β → Prop) : List ι → List β → List β → Prop
  | nil : RelatedAlong R [] [] []
  | cons {i : ι} {is : List ι} {v w : β} {vs ws : List β} : R i v w → RelatedAlong R is vs ws →
      RelatedAlong R (i :: is) (v :: vs) (w :: ws)

namespace RelatedAlong

variable {R : ι → β → β → Prop} {is : List ι} {vs ws : List β}

theorem forall₂ {S : β → β → Prop} (h : RelatedAlong R is vs ws)
    (hRS : ∀ i ∈ is, ∀ v w, R i v w → S v w) : List.Forall₂ S vs ws := by
  induction h with
  | nil => exact .nil
  | cons hvw _ ih =>
      exact .cons (hRS _ (by simp) _ _ hvw) (ih fun i hi => hRS i (by simp [hi]))

theorem of_map_some {first second : ι → Option β} (hvs : vs.map some = is.map first)
    (hws : ws.map some = is.map second)
    (h : ∀ i ∈ is, ∀ v w, first i = some v → second i = some w → R i v w) :
    RelatedAlong R is vs ws := by
  induction is generalizing vs ws with
  | nil =>
      obtain rfl := List.map_eq_nil_iff.1 hvs
      obtain rfl := List.map_eq_nil_iff.1 hws
      exact .nil
  | cons i is ih =>
      obtain ⟨v, vs, rfl, hv, hvs⟩ := List.map_eq_cons_iff.1 hvs
      obtain ⟨w, ws, rfl, hw, hws⟩ := List.map_eq_cons_iff.1 hws
      refine .cons (h i (by simp) v w hv.symm hw.symm) (ih hvs hws ?_)
      intro j hj
      exact h j (by simp [hj])

theorem single {i : ι} (h : RelatedAlong R [i] vs ws) : ∃ v w, vs = [v] ∧ ws = [w] ∧ R i v w := by
  cases h with
  | @cons _ _ v w _ _ hvw hrest =>
      cases hrest
      exact ⟨v, w, rfl, rfl, hvw⟩

theorem pair {i j : ι} (h : RelatedAlong R [i, j] vs ws) :
    ∃ v v' w w', vs = [v, w] ∧ ws = [v', w'] ∧ R i v v' ∧ R j w w' := by
  cases h with
  | @cons _ _ v v' _ _ hfirst hrest =>
      obtain ⟨w, w', rfl, rfl, hsecond⟩ := hrest.single
      exact ⟨v, v', w, w', rfl, rfl, hfirst, hsecond⟩

theorem mapM {results results' : List (Except ε β)}
    (h : RelatedAlong (fun i => AgreeUpTo (R i)) is results results') :
    AgreeUpTo (RelatedAlong R is) (results.mapM id) (results'.mapM id) := by
  induction h with
  | nil => exact .ok .nil
  | cons hvw _ ih =>
      rw [List.mapM_cons, List.mapM_cons]
      refine hvw.bind ?_
      intro v w hvw
      refine ih.bind ?_
      intro vs ws hrest
      exact .ok (.cons hvw hrest)

end RelatedAlong

namespace Lanes

inductive Related (R : α → α → Prop) : Lanes α → Lanes α → Prop
  | uniform {a b : α} : R a b → Related R (.uniform a) (.uniform b)
  | each {as bs : List α} : List.Forall₂ R as bs → Related R (.each as) (.each bs)

variable {R S T : α → α → Prop} {f g : α → α → α} {v v' w w' : Lanes α}

theorem related_eq_iff : Related Eq v w ↔ v = w := by
  constructor
  · intro h
    cases h with
    | uniform hab => rw [hab]
    | each hall =>
        rw [List.forall₂_eq_eq_eq] at hall
        rw [hall]
  · rintro rfl
    cases v with
    | uniform a => exact .uniform rfl
    | each as => exact .each (List.forall₂_refl as)

theorem Related.mono (hRS : ∀ x y, R x y → S x y) (h : Related R v w) : Related S v w := by
  cases h with
  | uniform hab => exact .uniform (hRS _ _ hab)
  | each hall => exact .each (hall.imp hRS)

theorem Related.map {f g : α → α} (hfg : ∀ x y, R x y → S (f x) (g y)) (h : Related R v w) :
    Related S (v.map f) (w.map g) := by
  cases h with
  | uniform hab => exact .uniform (hfg _ _ hab)
  | each hall => exact .each (List.rel_map (fun x y => hfg x y) hall)

theorem Related.spread (count : Nat) (h : Related R v w) :
    List.Forall₂ R (v.spread count) (w.spread count) := by
  cases h with
  | each hall => exact hall
  | uniform hab =>
      induction count with
      | zero => exact .nil
      | succ count ih => exact .cons hab ih

theorem forall₂_zipWith {as as' bs bs' : List α}
    (hfg : ∀ x x' y y', R x x' → S y y' → T (f x y) (g x' y')) (has : List.Forall₂ R as as')
    (hbs : List.Forall₂ S bs bs') :
    List.Forall₂ T (List.zipWith f as bs) (List.zipWith g as' bs') := by
  induction has generalizing bs bs' with
  | nil => exact .nil
  | cons hx _ ih =>
      cases hbs with
      | nil => exact .nil
      | cons hy hrest => exact .cons (hfg _ _ _ _ hx hy) (ih hrest)

theorem forall₂_pair {as as' bs bs' : List α}
    (hfg : ∀ x x' y y', R x x' → S y y' → T (f x y) (g x' y')) (has : List.Forall₂ R as as')
    (hbs : List.Forall₂ S bs bs') : List.Forall₂ T (pair f as bs) (pair g as' bs') := by
  cases has with
  | nil =>
      cases hbs with
      | nil => exact .nil
      | cons hy hrest => cases hrest <;> exact .nil
  | cons hx hmore =>
      cases hmore with
      | nil => exact List.rel_map (fun y y' hy => hfg _ _ y y' hx hy) hbs
      | cons hx' hmost =>
          cases hbs with
          | nil => exact .nil
          | cons hy hrest =>
              cases hrest with
              | nil =>
                  exact List.rel_map (fun x x' hx => hfg x x' _ _ hx hy)
                    (.cons hx (.cons hx' hmost))
              | cons hy' hrest =>
                  exact forall₂_zipWith hfg (.cons hx (.cons hx' hmost))
                    (.cons hy (.cons hy' hrest))

theorem Related.zip (hfg : ∀ x x' y y', R x x' → S y y' → T (f x y) (g x' y'))
    (hv : Related R v v') (hw : Related S w w') : Related T (zip f v w) (zip g v' w') := by
  cases hv with
  | uniform hx =>
      cases hw with
      | uniform hy => exact .uniform (hfg _ _ _ _ hx hy)
      | each hys => exact .each (List.rel_map (fun y y' hy => hfg _ _ y y' hx hy) hys)
  | each hxs =>
      cases hw with
      | uniform hy => exact .each (List.rel_map (fun x x' hx => hfg x x' _ _ hx hy) hxs)
      | each hys => exact .each (forall₂_pair hfg hxs hys)

variable [Scalar α]

/-- The special powers matter for an exponent that is the same everywhere, and the general power for
one that is not. -/
theorem Related.raise
    (hpower : ∀ x x' y y', R x x' → S y y' → T (Scalar.power x y) (Scalar.power x' y'))
    (hpow : w.IsUniform ∨ ∀ x x' y y', R x x' → S y y' → T (Scalar.pow x y) (Scalar.pow x' y'))
    (hv : Related R v v') (hw : Related S w w') : Related T (raise v w) (raise v' w') := by
  have huniform (u : Lanes α) (b : α) : Lanes.raise u (.uniform b) = u.map (Scalar.power · b) := by
    cases u <;> rfl
  cases hw with
  | uniform hy =>
      rw [huniform, huniform]
      exact hv.map fun x x' hx => hpower x x' _ _ hx hy
  | each hys =>
      have hgeneral := hpow.resolve_left id
      cases hv with
      | uniform hx => exact .each (List.rel_map (fun y y' hy => hgeneral _ _ y y' hx hy) hys)
      | each hxs =>
          cases hxs with
          | nil =>
              cases hys with
              | nil => exact .each .nil
              | cons hy hrest => cases hrest <;> exact .each .nil
          | cons hx hmore =>
              cases hmore with
              | nil => exact .each (List.rel_map (fun y y' hy => hgeneral _ _ y y' hx hy) hys)
              | cons hx' hmost =>
                  cases hys with
                  | nil => exact .each .nil
                  | cons hy hrest =>
                      cases hrest with
                      | nil =>
                          exact .each (List.rel_map (fun x x' hx => hpower x x' _ _ hx hy)
                            (.cons hx (.cons hx' hmost)))
                      | cons hy' hrest =>
                          exact .each (forall₂_zipWith hgeneral (.cons hx (.cons hx' hmost))
                            (.cons hy (.cons hy' hrest)))

end Lanes

namespace Carrier

/-- A relation of values for every relation of numbers, which the operations of a carrier keep. -/
structure Lifting [Scalar α] (c : Carrier α β) where
  lift : (α → α → Prop) → β → β → Prop
  /-- The values that are known as exponents before the bases are. -/
  IsKnown : β → Prop
  eq_iff : ∀ {v w}, lift Eq v w ↔ v = w
  mono : ∀ {R S : α → α → Prop} {v w}, (∀ x y, R x y → S x y) → lift R v w → lift S v w
  single : ∀ {R : α → α → Prop} {x y}, R x y → lift R (c.single x) (c.single y)
  isKnown_single : ∀ x, IsKnown (c.single x)
  map : ∀ {R S : α → α → Prop} {f g : α → α} {v w}, (∀ x y, R x y → S (f x) (g y)) →
    lift R v w → lift S (c.map f v) (c.map g w)
  zip : ∀ {R S T : α → α → Prop} {f g : α → α → α} {v v' w w'},
    (∀ x x' y y', R x x' → S y y' → T (f x y) (g x' y')) →
      lift R v v' → lift S w w' → lift T (c.zip f v w) (c.zip g v' w')
  raise : ∀ {R S T : α → α → Prop} {v v' w w'},
    (∀ x x' y y', R x x' → S y y' → T (Scalar.power x y) (Scalar.power x' y')) →
      (IsKnown w ∨ ∀ x x' y y', R x x' → S y y' → T (Scalar.pow x y) (Scalar.pow x' y')) →
        lift R v v' → lift S w w' → lift T (c.raise v w) (c.raise v' w')

namespace Lifting

variable [Scalar α]

def point : Lifting (point (α := α)) where
  lift R := R
  IsKnown _ := True
  eq_iff := Iff.rfl
  mono hRS := hRS _ _
  single hxy := hxy
  isKnown_single _ := trivial
  map hfg := hfg _ _
  zip hfg := hfg _ _ _ _
  raise hpower _ := hpower _ _ _ _

def lanes : Lifting (lanes (α := α)) where
  lift := Lanes.Related
  IsKnown := Lanes.IsUniform
  eq_iff := Lanes.related_eq_iff
  mono := Lanes.Related.mono
  single := .uniform
  isKnown_single _ := trivial
  map := Lanes.Related.map
  zip := Lanes.Related.zip
  raise := Lanes.Related.raise

variable {c : Carrier α β} (r : c.Lifting) {R T : α → α → Prop} {f : α → α → α} {t t' : β}
  {operands operands' : List β}

theorem foldl (hf : ∀ x x' y y', T x x' → R y y' → T (f x y) (f x' y'))
    (h : List.Forall₂ (r.lift R) operands operands') (ht : r.lift T t t') :
    r.lift T (operands.foldl (c.zip f) t) (operands'.foldl (c.zip f) t') := by
  induction h generalizing t t' with
  | nil => exact ht
  | cons hv _ ih => exact ih (r.zip hf ht hv)

end Lifting
end Carrier
end PrefixIntegral
