import PrefixIntegral.Evaluation.Value

namespace PrefixIntegral

variable {α : Type}

namespace Lanes

def Covers (count : Nat) : Lanes α → Prop
  | uniform _ => True
  | each values => values.length = count

def IsUniform : Lanes α → Prop
  | uniform _ => True
  | each _ => False

variable {count k : Nat} {v w : Lanes α}

theorem covers_map (f : α → α) (h : v.Covers count) : (v.map f).Covers count := by
  cases v with
  | uniform value => trivial
  | each values => exact (List.length_map f).trans h

theorem pair_eq_zipWith (f : α → α → α) {as bs : List α} (h : as.length = bs.length) :
    pair f as bs = List.zipWith f as bs := by
  unfold pair
  split
  · rename_i a
    obtain ⟨b, rfl⟩ := List.length_eq_one_iff.1 h.symm
    rfl
  · rename_i b _
    obtain ⟨a, rfl⟩ := List.length_eq_one_iff.1 h
    rfl
  · rfl

theorem covers_zip (f : α → α → α) (hv : v.Covers count) (hw : w.Covers count) :
    (zip f v w).Covers count := by
  cases v with
  | uniform a =>
      cases w with
      | uniform b => trivial
      | each bs => exact (List.length_map (f a)).trans hw
  | each as =>
      have has : as.length = count := hv
      cases w with
      | uniform b => exact (List.length_map _).trans hv
      | each bs =>
          have hbs : bs.length = count := hw
          simp [zip, Covers, pair_eq_zipWith f (has.trans hbs.symm), has, hbs]

theorem length_spread (h : v.Covers count) : (v.spread count).length = count := by
  cases v with
  | uniform value => exact List.length_replicate
  | each values => exact h

@[simp] theorem isUniform_map {f : α → α} : (v.map f).IsUniform ↔ v.IsUniform := by
  cases v <;> exact Iff.rfl

@[simp] theorem isUniform_zip {f : α → α → α} :
    (zip f v w).IsUniform ↔ v.IsUniform ∧ w.IsUniform := by
  cases v with
  | uniform a => cases w <;> simp [zip, IsUniform]
  | each as => cases w <;> simp [zip, IsUniform]

@[simp] theorem isUniform_foldl {f : α → α → α} {operands : List (Lanes α)} :
    (operands.foldl (zip f) v).IsUniform ↔ v.IsUniform ∧ ∀ u ∈ operands, u.IsUniform := by
  induction operands generalizing v with
  | nil => simp
  | cons u rest ih => rw [List.foldl_cons, ih, isUniform_zip, List.forall_mem_cons, and_assoc]

variable [Scalar α]

def lane (k : Nat) : Lanes α → α
  | uniform value => value
  | each values => values.getD k (Scalar.ofInt 0)

theorem getElem_spread (h : k < (v.spread count).length) : (v.spread count)[k] = v.lane k := by
  cases v with
  | uniform value => exact List.getElem_replicate _
  | each values =>
      have hin : k < values.length := h
      simp [spread, lane, hin]

theorem lane_map (f : α → α) (h : v.Covers count) (hk : k < count) :
    (v.map f).lane k = f (v.lane k) := by
  cases v with
  | uniform value => rfl
  | each values =>
      have hin : k < values.length := by rwa [show values.length = count from h]
      simp [map, lane, hin]

theorem lane_zip (f : α → α → α) (hv : v.Covers count) (hw : w.Covers count) (hk : k < count) :
    (zip f v w).lane k = f (v.lane k) (w.lane k) := by
  cases v with
  | uniform a =>
      cases w with
      | uniform b => rfl
      | each bs =>
          have hin : k < bs.length := by rwa [show bs.length = count from hw]
          simp [zip, lane, hin]
  | each as =>
      have has : as.length = count := hv
      have hin : k < as.length := by omega
      cases w with
      | uniform b => simp [zip, lane, hin]
      | each bs =>
          have hbs : bs.length = count := hw
          have hin' : k < bs.length := by omega
          have hpair : (List.zipWith f as bs)[k]? = some (f as[k] bs[k]) := by
            rw [List.getElem?_zipWith, List.getElem?_eq_getElem hin, List.getElem?_eq_getElem hin']
          simp only [zip, lane, pair_eq_zipWith f (has.trans hbs.symm),
            List.getD_eq_getElem?_getD, hpair, List.getElem?_eq_getElem hin,
            List.getElem?_eq_getElem hin', Option.getD_some]

theorem any_iff (test : α → Bool) (h : v.Covers count) (hcount : 0 < count) :
    v.any test ↔ ∃ k < count, test (v.lane k) := by
  cases v with
  | uniform value =>
      constructor
      · intro hv
        exact ⟨0, hcount, hv⟩
      · rintro ⟨_, _, hv⟩
        exact hv
  | each values =>
      have hvalues : values.length = count := h
      simp only [any, List.any_eq_true, lane]
      constructor
      · rintro ⟨a, ha, htest⟩
        obtain ⟨k, hk, rfl⟩ := List.getElem_of_mem ha
        exact ⟨k, by omega, by simpa [hk] using htest⟩
      · rintro ⟨k, hk, htest⟩
        have hin : k < values.length := by omega
        exact ⟨values[k], List.getElem_mem hin, by simpa [hin] using htest⟩

theorem raise_eq_zip (h : ∀ a b : α, Scalar.power a b = Scalar.pow a b) (v w : Lanes α) :
    raise v w = zip Scalar.power v w := by
  have hpower : (Scalar.power : α → α → α) = Scalar.pow := funext fun a => funext (h a)
  unfold raise
  rw [hpower]
  split
  · cases v <;> rfl
  · rfl
  · rfl
  · rename_i bases exponent hbases
    cases bases with
    | nil => rfl
    | cons a rest =>
        cases rest with
        | nil => exact absurd rfl (hbases a)
        | cons b rest => rfl
  · rename_i bases exponents hbases hexponents
    refine congrArg each ?_
    unfold pair
    split
    · exact absurd rfl (hbases _)
    · exact absurd rfl (hexponents _)
    · rfl

theorem covers_raise (hv : v.Covers count) (hw : w.Covers count) :
    (raise v w).Covers count := by
  unfold raise
  split
  · exact covers_map _ hv
  · exact (List.length_map _).trans hw
  · exact (List.length_map _).trans hw
  · exact (List.length_map _).trans hv
  · rename_i bases exponents _ _
    have hbases : bases.length = count := hv
    have hexponents : exponents.length = count := hw
    simp [Covers, hbases, hexponents]

/-- Raising to powers raises at each point, if the exponent is the same at all of them or powers do
not depend on knowing it before. -/
theorem lane_raise (hv : v.Covers count) (hw : w.Covers count) (hk : k < count)
    (h : w.IsUniform ∨ ∀ a b : α, Scalar.power a b = Scalar.pow a b) :
    (raise v w).lane k = Scalar.power (v.lane k) (w.lane k) := by
  rcases h with h | h
  · cases w with
    | uniform exponent =>
        have hraise : raise v (uniform exponent) = v.map (Scalar.power · exponent) := by
          cases v <;> rfl
        rw [hraise]
        exact lane_map _ hv hk
    | each exponents => cases h
  · rw [raise_eq_zip h]
    exact lane_zip _ hv hw hk

@[simp] theorem isUniform_raise : (raise v w).IsUniform ↔ v.IsUniform ∧ w.IsUniform := by
  cases w with
  | uniform b =>
      have hraise : raise v (uniform b) = v.map (Scalar.power · b) := by
        cases v <;> rfl
      rw [hraise, isUniform_map]
      simp [IsUniform]
  | each bs =>
      refine iff_of_false ?_ fun h => h.2
      unfold raise
      split
      · rename_i hexponent
        cases hexponent
      all_goals exact id

/-- What numbers at many points have whatever is done to them. -/
structure Closed (P : Lanes α → Prop) : Prop where
  single : ∀ a, P (uniform a)
  map : ∀ f v, P v → P (v.map f)
  zip : ∀ f v w, P v → P w → P (zip f v w)
  raise : ∀ v w, P v → P w → P (raise v w)

theorem closed_isUniform : Closed (IsUniform (α := α)) where
  single _ := trivial
  map _ _ := isUniform_map.2
  zip _ _ _ hv hw := isUniform_zip.2 ⟨hv, hw⟩
  raise _ _ hv hw := isUniform_raise.2 ⟨hv, hw⟩

theorem closed_covers (count : Nat) : Closed (Covers (α := α) count) where
  single _ := trivial
  map f _ := covers_map f
  zip f _ _ := covers_zip f
  raise _ _ := covers_raise

theorem Closed.foldl {P : Lanes α → Prop} (h : Closed P) (f : α → α → α)
    {operands : List (Lanes α)} (hall : ∀ u ∈ operands, P u) (hv : P v) :
    P (operands.foldl (Lanes.zip f) v) := by
  induction operands generalizing v with
  | nil => exact hv
  | cons u rest ih =>
      exact ih (fun w hw => hall w (by simp [hw])) (h.zip f _ _ hv (hall u (by simp)))

end Lanes

end PrefixIntegral
