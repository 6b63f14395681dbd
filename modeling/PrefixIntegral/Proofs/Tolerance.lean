import PrefixIntegral.Proofs.FirstFault
import PrefixIntegral.Proofs.Folds
import PrefixIntegral.Proofs.Lifting
import PrefixIntegral.Proofs.Reread
import PrefixIntegral.Proofs.SignedZeros

/-!
Evaluation of trees that are the same. Their constants may be zeros of different signs, which
divisors, roots and logarithms tell apart. Where no such operator gets to see the difference, the
trees have the same faults, and the same values up to the sign of a zero.
-/

namespace PrefixIntegral

namespace Binary64

def AlikeIf (differs : Prop) (x y : Float) : Prop := Alike x y ∧ (¬differs → x = y)

variable {p : Prop} {x x' y y' : Float}

theorem AlikeIf.refl (p : Prop) (x : Float) : AlikeIf p x x := ⟨.refl x, fun _ => rfl⟩

theorem AlikeIf.mono {q : Prop} (hpq : p → q) (h : AlikeIf p x y) : AlikeIf q x y :=
  ⟨h.1, fun hq => h.2 (hq ∘ hpq)⟩

theorem AlikeIf.mul (hx : AlikeIf p x x') (hy : AlikeIf p y y') : AlikeIf p (x * y) (x' * y') :=
  ⟨hx.1.mul hy.1, fun h => by rw [hx.2 h, hy.2 h]⟩

theorem AlikeIf.sub (hx : AlikeIf p x x') (hy : AlikeIf p y y') : AlikeIf p (x - y) (x' - y') :=
  ⟨hx.1.sub hy.1, fun h => by rw [hx.2 h, hy.2 h]⟩

theorem AlikeIf.div (hx : AlikeIf p x x') (y : Float) : AlikeIf p (x / y) (x' / y) :=
  ⟨hx.1.div y, fun h => by rw [hx.2 h]⟩

/-- What takes both zeros to the same number up to the sign of a zero does so with all numbers that
are the same up to the sign of a zero, and shows the sign only if it does not take both zeros to the
same. -/
theorem AlikeIf.map {q : Prop} {f : Float → Float} (hf : Alike (f 0) (f (-0)))
    (hpq : f 0 ≠ f (-0) → p → q) (hx : AlikeIf p x x') : AlikeIf q (f x) (f x') := by
  constructor
  · rcases hx.1 with rfl | ⟨rfl | rfl, rfl | rfl⟩
    · exact .refl _
    · exact .refl _
    · exact hf
    · exact hf.symm
    · exact .refl _
  · intro hq
    by_cases hzeros : f 0 = f (-0)
    · exact hx.1.congr hzeros
    · rw [hx.2 fun hp => hq (hpq hzeros hp)]

theorem power_two (x : Float) : Scalar.power x (Scalar.ofInt 2) = x * x := by
  unfold Scalar.power
  rw [if_neg (by decide), if_neg (by decide), if_neg (by decide), if_neg (by decide),
    if_pos (by decide)]

theorem power_zero (x : Float) (hy : y = 0 ∨ y = -0) : Scalar.power x y = Scalar.ofInt 1 := by
  rcases hy with rfl | rfl
  · unfold Scalar.power
    rw [if_neg (by decide), if_pos (by decide)]
  · unfold Scalar.power
    rw [if_neg (by decide), if_pos (by decide)]

theorem Alike.power_right (hy : Alike y y') (x : Float) :
    Scalar.power x y = Scalar.power x y' := by
  refine hy.congr (f := Scalar.power x) ?_
  rw [power_zero x (.inl rfl), power_zero x (.inr rfl)]

end Binary64

open Binary64 (Alike AlikeIf)

namespace Carrier.Lifting

variable {β : Type} {c : Carrier Float β} (r : c.Lifting) {p : Prop} {v v' w w' : β}
  {node : Nat} {operands operands' : List β}

theorem alikeIf_refl (p : Prop) (v : β) : r.lift (AlikeIf p) v v := by
  refine r.mono ?_ (r.eq_iff.2 rfl)
  rintro x _ rfl
  exact .refl p x

theorem eq_of_alikeIf (hp : ¬p) (h : r.lift (AlikeIf p) v w) : v = w :=
  r.eq_iff.1 (r.mono (fun _ _ hxy => hxy.2 hp) h)

theorem agree_of_eq (p : Prop) {first second : Except EvaluationFault β}
    (h : first = second) : AgreeUpTo (r.lift (AlikeIf p)) first second := by
  refine (AgreeUpTo.eq_iff.2 h).mono ?_
  rintro v _ rfl
  exact r.alikeIf_refl p v

theorem agree_product (h : List.Forall₂ (r.lift (AlikeIf p)) operands operands') :
    AgreeUpTo (r.lift (AlikeIf p)) (c.applyAt node .mul operands)
      (c.applyAt node .mul operands') := by
  refine .ok (r.foldl (fun _ _ _ _ => AlikeIf.mul) h ?_)
  exact r.single (AlikeIf.refl p _)

theorem sum_eq (h : List.Forall₂ (r.lift Alike) operands operands') :
    c.applyAt node .add operands = c.applyAt node .add operands' := by
  have hsum : r.lift (fun x y => x = y ∧ x ≠ -0)
      (operands.foldl (c.zip (· + ·)) (c.single (Scalar.ofInt 0)))
        (operands'.foldl (c.zip (· + ·)) (c.single (Scalar.ofInt 0))) := by
    refine r.foldl ?_ h (r.single ⟨rfl, by decide⟩)
    rintro x _ y y' ⟨rfl, hx⟩ hy
    exact ⟨hy.add_right hx, Binary64.add_ne_negZero hx y⟩
  exact congrArg Except.ok (r.eq_iff.1 (r.mono (fun _ _ hxy => hxy.1) hsum))

theorem agree_difference (hv : r.lift (AlikeIf p) v v') (hw : r.lift (AlikeIf p) w w') :
    AgreeUpTo (r.lift (AlikeIf p)) (c.applyAt node .sub [v, w]) (c.applyAt node .sub [v', w']) :=
  .ok (r.zip (fun _ _ _ _ => AlikeIf.sub) hv hw)

theorem agree_quotient (hv : r.lift (AlikeIf p) v v') (w : β) :
    AgreeUpTo (r.lift (AlikeIf p)) (c.applyAt node .div [v, w]) (c.applyAt node .div [v', w]) := by
  unfold applyAt
  dsimp only
  split
  · exact .error _
  · refine .ok (r.zip ?_ hv (r.eq_iff.2 rfl))
    rintro x x' y _ hx rfl
    exact hx.div y

theorem raise_single {R T : Float → Float → Prop} {e e' : Float}
    (h : ∀ x x', R x x' → T (Scalar.power x e) (Scalar.power x' e')) (hv : r.lift R v v') :
    r.lift T (c.raise v (c.single e)) (c.raise v' (c.single e')) := by
  have hexponent : r.lift (fun y y' => y = e ∧ y' = e') (c.single e) (c.single e') :=
    r.single ⟨rfl, rfl⟩
  refine r.raise ?_ (.inl (r.isKnown_single e)) hv hexponent
  rintro x x' _ _ hx ⟨rfl, rfl⟩
  exact h x x' hx

theorem square_eq (hv : r.lift Alike v v') :
    c.applyAt node .sqr [v] = c.applyAt node .sqr [v'] := by
  refine congrArg Except.ok (r.eq_iff.1 (r.raise_single ?_ hv))
  intro x x' hx
  rw [Binary64.power_two, Binary64.power_two, hx.mul_self]

theorem agree_power_base {q : Prop} {e e' : Float} (he : Alike e e')
    (hzeros : Alike (Scalar.power 0 e) (Scalar.power (-0) e))
    (hpq : Scalar.power 0 e ≠ Scalar.power (-0) e → p → q) (hv : r.lift (AlikeIf p) v v') :
    AgreeUpTo (r.lift (AlikeIf q)) (c.applyAt node .pow [v, c.single e])
      (c.applyAt node .pow [v', c.single e']) := by
  refine .ok (r.raise_single ?_ hv)
  intro x x' hx
  rw [← he.power_right x']
  exact hx.map (f := fun x => Scalar.power x e) hzeros hpq

theorem power_exponent_eq (v : β)
    (hknown : r.IsKnown w ∨ ∀ base : Float, Scalar.pow base 0 = Scalar.pow base (-0))
    (hw : r.lift Alike w w') : c.applyAt node .pow [v, w] = c.applyAt node .pow [v, w'] := by
  refine congrArg Except.ok (r.eq_iff.1 (r.raise ?_ (hknown.imp_right ?_) (r.eq_iff.2 rfl) hw))
  · rintro x _ y y' rfl hy
    exact hy.power_right x
  · rintro hzeros x _ y y' rfl hy
    exact hy.congr (hzeros x)

theorem lift_map {q : Prop} {f : Float → Float} (hf : Alike (f 0) (f (-0)))
    (hpq : f 0 ≠ f (-0) → p → q) (hv : r.lift (AlikeIf p) v v') :
    r.lift (AlikeIf q) (c.map f v) (c.map f v') :=
  r.map (fun _ _ => AlikeIf.map hf hpq) hv

end Carrier.Lifting

namespace Tree

def ExponentIs (t : Tree Float) (operands : List Int) (holds : Float → Prop) : Prop :=
  ∃ exponent, ∃ hi : exponent.toNat < t.size, operands[1]? = some exponent ∧
    (t.node _ hi).kind = .constant ∧ holds (t.node _ hi).value

/-- The sign of a zero at this position among the operands of an operator may be seen in its result.
A sum and a square do not show it, nor does what is the same for both zeros. -/
def PassesSign (t : Tree Float) (operands : List Int) : Operator → Nat → Prop
  | .mul, _ | .sub, _ => True
  | .div, position => position = 0
  | .pow, 0 => ¬t.ExponentIs operands fun e => Scalar.power 0 e = Scalar.power (-0) e
  | .add, _ | .sqr, _ | .sqrt, _ | .log, _ | .pow, _ => False
  | op, _ => Carrier.point.unary (.operator op) (0 : Float) ≠
      Carrier.point.unary (.operator op) (-0)

/-- The values of two trees at a place may be zeros of different signs: the trees have such
constants there, or operators pass their signs on from there. -/
inductive SignsDiffer (a b : Tree Float) : Nat → Prop
  | constant {i : Nat} (hi : i < a.size) (hi' : i < b.size) : (a.node i hi).kind = .constant →
      (a.node i hi).value ≠ (b.node i hi').value → SignsDiffer a b i
  | operand {i position : Nat} {op : Operator} {child : Int} (hi : i < a.size) :
      (a.node i hi).kind = .operator op → a.PassesSign (a.node i hi).children op position →
        (a.node i hi).children[position]? = some child → SignsDiffer a b child.toNat →
          SignsDiffer a b i

/-- An operator takes zeros of either sign at this position among its operands and has the same
value with both, up to the sign of a zero. A divisor, a root and a logarithm do not, and a function
only does if its values at the two zeros are so. A base does if the exponent is a constant for which
this is true, an exponent if it is known before the base or if it makes no difference. -/
def Tolerates (t : Tree Float) (operands : List Int) : Operator → Nat → Prop
  | .mul, _ | .add, _ | .sub, _ | .sqr, _ => True
  | .div, position => position = 0
  | .pow, 0 => t.ExponentIs operands fun e => Alike (Scalar.power 0 e) (Scalar.power (-0) e)
  | .pow, _ => (∀ exponent ∈ operands.tail, ¬t.VariesAt exponent.toNat) ∨
      ∀ base : Float, Scalar.pow base 0 = Scalar.pow base (-0)
  | .sqrt, _ | .log, _ => False
  | op, _ => AgreeUpTo Alike (Carrier.point.unary (.operator op) 0)
      (Carrier.point.unary (.operator op) (-0))

/-- Wherever the values of two trees may be zeros of different signs, the operator of the place
tolerates that. -/
def ToleratesSigns (a b : Tree Float) : Prop :=
  ∀ i (hi : i < a.size) op position child, (a.node i hi).kind = .operator op →
    (a.node i hi).children[position]? = some child → SignsDiffer a b child.toNat →
      a.Tolerates (a.node i hi).children op position

variable {a b : Tree Float}

theorem size_eq_of_same (h : a.same b = true) : a.size = b.size := by
  simp only [same, Bool.and_eq_true, beq_iff_eq] at h
  exact h.1.2

theorem same_node (h : a.same b = true) {i : Nat} (hi : i < a.size) (hi' : i < b.size) :
    (a.node i hi).same (b.node i hi') = true := by
  simp only [same, Bool.and_eq_true] at h
  refine List.all_eq_true.1 h.2 (a.node i hi, b.node i hi') ?_
  rw [List.mem_iff_getElem?]
  refine ⟨i, List.getElem?_zip_eq_some.2 ⟨?_, ?_⟩⟩
  · rw [Array.getElem?_toList]
    exact Array.getElem?_eq_getElem hi
  · rw [Array.getElem?_toList]
    exact Array.getElem?_eq_getElem hi'

section Evaluation

variable {β : Type} {c : Carrier Float β} (r : c.Lifting) {x : β}

def OperandsAlike (a b : Tree Float) (r : c.Lifting) (x : β) (child : Int) (v w : β) : Prop :=
  r.lift (AlikeIf (SignsDiffer a b child.toNat)) v w ∧
    a.foldAt? (c.valueAt x) child.toNat = some (.ok v) ∧
      b.foldAt? (c.valueAt x) child.toNat = some (.ok w)

variable {r} {i : Nat} {hi : i < a.size} {op : Operator} {vs ws : List β}

theorem OperandsAlike.eq {child : Int} {v w : β} (h : OperandsAlike a b r x child v w)
    (hsigns : ¬SignsDiffer a b child.toNat) : v = w := r.eq_of_alikeIf hsigns h.1

theorem OperandsAlike.alike {child : Int} {v w : β} (h : OperandsAlike a b r x child v w) :
    r.lift Alike v w := r.mono (fun _ _ hxy => hxy.1) h.1

theorem foldAt?_of_lt {γ : Type} {t : Tree Float} {combine : Nat → Node Float → List γ → γ}
    {i : Nat} (hi : i < t.size) : t.foldAt? combine i = some (t.foldFrom combine i hi) :=
  dif_pos hi

theorem foldFrom_constant {t : Tree Float} {i : Nat} (hi : i < t.size)
    (hkind : (t.node i hi).kind = .constant) :
    t.foldFrom (c.valueAt x) i hi = .ok (c.single (t.node i hi).value) := by
  rw [foldFrom_eq, Carrier.valueAt, hkind]

theorem OperandsAlike.exists_constant {child : Int} {v w : β} (hsame : a.same b = true)
    (h : OperandsAlike a b r x child v w) (hi : child.toNat < a.size)
    (hkind : (a.node _ hi).kind = .constant) :
    ∃ e', v = c.single (a.node _ hi).value ∧ w = c.single e' ∧ Alike (a.node _ hi).value e' := by
  have hi' : child.toNat < b.size := size_eq_of_same hsame ▸ hi
  obtain ⟨hkind', hvalue, -⟩ := Node.same_iff.1 (same_node hsame hi hi')
  obtain ⟨-, hv, hw⟩ := h
  rw [foldAt?_of_lt hi, foldFrom_constant hi hkind] at hv
  rw [foldAt?_of_lt hi', foldFrom_constant hi' (hkind'.symm.trans hkind)] at hw
  refine ⟨(b.node _ hi').value, ?_, ?_, Binary64.alike_of_beq hvalue⟩
  · exact (Except.ok.inj (Option.some.inj hv)).symm
  · exact (Except.ok.inj (Option.some.inj hw)).symm

/-- One step of the evaluation of two trees: operands that are alike give results that are. -/
theorem agree_applyAt (hsame : a.same b = true) (htolerates : ToleratesSigns a b)
    (hknown : ∀ j, ¬a.VariesAt j → ∀ v, a.foldAt? (c.valueAt x) j = some (.ok v) → r.IsKnown v)
    (hkind : (a.node i hi).kind = .operator op)
    (haccepts : op.arity.accepts (a.node i hi).children.length)
    (h : RelatedAlong (OperandsAlike a b r x) (a.node i hi).children vs ws) :
    AgreeUpTo (r.lift (AlikeIf (SignsDiffer a b i))) (c.applyAt i op vs) (c.applyAt i op ws) := by
  have htol := fun position child => htolerates i hi op position child hkind
  have hdiffer {position : Nat} {child : Int}
      (hpass : a.PassesSign (a.node i hi).children op position)
      (hchild : (a.node i hi).children[position]? = some child) :
      SignsDiffer a b child.toNat → SignsDiffer a b i := .operand hi hkind hpass hchild
  have hpass {position : Nat} {child : Int}
      (hpass : a.PassesSign (a.node i hi).children op position)
      (hchild : (a.node i hi).children[position]? = some child) {v w : β}
      (hvw : OperandsAlike a b r x child v w) : r.lift (AlikeIf (SignsDiffer a b i)) v w :=
    r.mono (fun _ _ => AlikeIf.mono (hdiffer hpass hchild)) hvw.1
  generalize (a.node i hi).children = children at *
  cases op with
  | mul =>
      refine r.agree_product (h.forall₂ ?_)
      intro child hchild v w hvw
      obtain ⟨position, hposition⟩ := List.mem_iff_getElem?.1 hchild
      exact hpass trivial hposition hvw
  | add => exact r.agree_of_eq _ (r.sum_eq (h.forall₂ fun _ _ _ _ hvw => hvw.alike))
  | sub =>
      obtain ⟨first, second, rfl⟩ := Carrier.exists_pair_of_accepts haccepts
      obtain ⟨v, v', w, w', rfl, rfl, hfirst, hsecond⟩ := h.pair
      exact r.agree_difference (@hpass 0 _ trivial rfl _ _ hfirst)
        (@hpass 1 _ trivial rfl _ _ hsecond)
  | div =>
      obtain ⟨first, second, rfl⟩ := Carrier.exists_pair_of_accepts haccepts
      obtain ⟨v, v', w, w', rfl, rfl, hfirst, hsecond⟩ := h.pair
      obtain rfl := hsecond.eq fun hdiffer => Nat.one_ne_zero (htol 1 second rfl hdiffer)
      exact r.agree_quotient (@hpass 0 _ rfl rfl _ _ hfirst) w
  | pow =>
      obtain ⟨first, second, rfl⟩ := Carrier.exists_pair_of_accepts haccepts
      obtain ⟨v, v', w, w', rfl, rfl, hfirst, hsecond⟩ := h.pair
      by_cases hbase : SignsDiffer a b first.toNat
      · obtain ⟨exponent, hexponent, hat, hconstant, hzeros⟩ := htol 0 first rfl hbase
        obtain rfl := Option.some.inj hat
        obtain ⟨e', rfl, rfl, he⟩ := hsecond.exists_constant hsame hexponent hconstant
        refine r.agree_power_base he hzeros (fun hne => @hdiffer 0 _ ?_ rfl) hfirst.1
        rintro ⟨exponent, _, hother, -, heq⟩
        obtain rfl := Option.some.inj hother
        exact hne heq
      · obtain rfl := hfirst.eq hbase
        refine r.agree_of_eq _ ?_
        by_cases hexponent : SignsDiffer a b second.toNat
        · refine r.power_exponent_eq v ((htol 1 second rfl hexponent).imp_left ?_) hsecond.alike
          intro hvaries
          exact hknown second.toNat (hvaries second (by simp)) w hsecond.2.1
        · rw [hsecond.eq hexponent]
  | sqr =>
      obtain ⟨child, rfl⟩ := Carrier.exists_single_of_accepts haccepts
      obtain ⟨v, w, rfl, rfl, hvw⟩ := h.single
      exact r.agree_of_eq _ (r.square_eq hvw.alike)
  | sqrt | log =>
      obtain ⟨child, rfl⟩ := Carrier.exists_single_of_accepts haccepts
      obtain ⟨v, w, rfl, rfl, hvw⟩ := h.single
      obtain rfl := hvw.eq (htol 0 child rfl)
      exact r.agree_of_eq _ rfl
  | sin | cos | tan | cot | exp =>
      obtain ⟨child, rfl⟩ := Carrier.exists_single_of_accepts haccepts
      obtain ⟨v, w, rfl, rfl, hvw⟩ := h.single
      by_cases hsigns : SignsDiffer a b child.toNat
      · cases htol 0 child rfl hsigns with
        | ok hzeros =>
            refine .ok (r.lift_map hzeros (fun hne => @hdiffer 0 _ ?_ rfl) hvw.1)
            exact fun heq => hne (Except.ok.inj heq)
      · obtain rfl := hvw.eq hsigns
        exact r.agree_of_eq _ rfl

/-- A whole evaluation of two trees that are the same: at every place the values are alike. -/
theorem agree_foldFrom (hsame : a.same b = true) (htolerates : ToleratesSigns a b)
    (hknown : ∀ j, ¬a.VariesAt j → ∀ v, a.foldAt? (c.valueAt x) j = some (.ok v) → r.IsKnown v)
    {i : Nat} (hi : i < a.size) (hi' : i < b.size) :
    AgreeUpTo (r.lift (AlikeIf (SignsDiffer a b i))) (a.foldFrom (c.valueAt x) i hi)
      (b.foldFrom (c.valueAt x) i hi') := by
  induction i, hi using place_induction with
  | node i hi ih =>
      obtain ⟨hkinds, hvalue, hchildren⟩ := Node.same_iff.1 (same_node hsame hi hi')
      rcases a.node_cases hi with ⟨op, hkind, haccepts⟩ | ⟨hkind | hkind, -⟩
      · rw [foldFrom_eq_applyAt hkind, foldFrom_eq_applyAt (hkinds.symm.trans hkind)]
        have hsecond : (b.operands (c.valueAt x) i hi').map some =
            (a.node i hi).children.map fun child => b.foldAt? (c.valueAt x) child.toNat := by
          rw [hchildren]
          exact map_some_foldFrom hi'
        have hoperands : RelatedAlong (fun child => AgreeUpTo (OperandsAlike a b r x child))
            (a.node i hi).children (a.operands (c.valueAt x) i hi)
              (b.operands (c.valueAt x) i hi') := by
          refine .of_map_some (map_some_foldFrom hi) hsecond ?_
          intro child hchild first second hfirst hsecond
          have hlt := (a.lt_child hi hchild).2
          have hlt' : child.toNat < b.size := size_eq_of_same hsame ▸ hlt
          have hagree := ih child hchild hlt'
          rw [Option.some.inj ((foldAt?_of_lt hlt).symm.trans hfirst),
            Option.some.inj ((foldAt?_of_lt hlt').symm.trans hsecond)] at hagree
          refine hagree.attach.mono ?_
          rintro v w ⟨hvw, rfl, rfl⟩
          exact ⟨hvw, hfirst, hsecond⟩
        exact hoperands.mapM.bind fun vs ws hvw =>
          agree_applyAt hsame htolerates hknown hkind haccepts hvw
      · refine r.agree_of_eq _ ?_
        rw [foldFrom_eq, foldFrom_eq, Carrier.valueAt, Carrier.valueAt, ← hkinds, hkind]
      · rw [foldFrom_constant hi hkind, foldFrom_constant hi' (hkinds.symm.trans hkind)]
        refine .ok (r.single ⟨Binary64.alike_of_beq hvalue, ?_⟩)
        intro hdiffer
        by_contra hne
        exact hdiffer (.constant hi hi' hkind hne)

end Evaluation

theorem agree_evaluate (hsame : a.same b = true) (htolerates : ToleratesSigns a b) (x : Float) :
    AgreeUpTo (AlikeIf (SignsDiffer a b 0)) (a.evaluate x) (b.evaluate x) :=
  agree_foldFrom (r := .point) hsame htolerates (fun _ _ _ _ => trivial) a.size_pos b.size_pos

theorem agree_evaluateOn_lanes (hsame : a.same b = true) (htolerates : ToleratesSigns a b)
    (points : Lanes Float) : AgreeUpTo (Lanes.Related (AlikeIf (SignsDiffer a b 0)))
      (a.evaluateOn Carrier.lanes points) (b.evaluateOn Carrier.lanes points) := by
  refine agree_foldFrom (r := .lanes) hsame htolerates ?_ a.size_pos b.size_pos
  intro j hvaries v hv
  by_cases hj : j < a.size
  · rw [foldAt?_of_lt hj] at hv
    exact isUniform_foldFrom hj hvaries (Option.some.inj hv)
  · rw [foldAt?, dif_neg hj] at hv
    cases hv

end Tree

end PrefixIntegral
