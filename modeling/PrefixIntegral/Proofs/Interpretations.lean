import Mathlib.Analysis.SpecialFunctions.Pow.Real
import Mathlib.Analysis.SpecialFunctions.Trigonometric.Basic
import PrefixIntegral.Proofs.Breaches
import PrefixIntegral.Proofs.RoundTrip
import PrefixIntegral.Tree.Symbolic
import PrefixIntegral.Tree.Traversal

/-!
Interpretations. A tree and the symbolic expression that is made of it are both read in a field, in
which the functions of formulas are any that agree where the expression writes one of them as
another. Both readings are the same.
-/

namespace PrefixIntegral

namespace Binary64

open Float.Model (UnpackedFloat)
open Float.Model.UnpackedFloat (Sign)
open Decimal (Numeral)

theorem ofInt_eq_toFloat {negative : Bool} {k : Nat} (hk : 0 < k) :
    Float.ofInt (if negative then -(k : Int) else k) = Numeral.toFloat ⟨negative, k, 0⟩ := by
  have hfar : ¬((Nat.log2 k + 1 : Nat) : Int) * 30103 / 100000 + 1 + 0 < -Decimal.reach := by
    show ¬_ < (-400 : Int)
    omega
  have hnear : ¬Decimal.reach < 0 := by decide
  unfold Numeral.toFloat
  simp only [if_neg hk.ne', if_neg hnear, if_neg hfar]
  obtain ⟨j, rfl⟩ := Nat.exists_eq_succ_of_ne_zero hk.ne'
  cases negative <;> rfl

theorem exists_of_whole? {x : Float} {n : Int} (h : Decimal.whole? x = some n) :
    ∃ (negative : Bool) (significand : Nat) (exponent : Int) (k : Nat),
      Decimal.parts x = .finite negative significand exponent ∧
        n = (if negative then -(k : Int) else k) ∧ (k : ℚ) = significand * 2 ^ exponent := by
  unfold Decimal.whole? at h
  split at h
  · rename_i negative significand exponent hparts
    dsimp only [Decimal.ratio] at h
    split at h
    · rename_i hdvd
      refine ⟨negative, significand, exponent, _, hparts, (Option.some.inj h).symm, ?_⟩
      have hden : ((2 ^ (-exponent).toNat : Nat) : ℚ) ≠ 0 := by positivity
      rw [Nat.cast_div (Nat.dvd_of_mod_eq_zero hdvd) hden, div_eq_iff hden]
      push_cast
      rw [mul_assoc, zpow_mul_pow_toNat two_ne_zero]
    · cases h
  · cases h

theorem ofInt_of_whole? {x : Float} {n : Int} (h : Decimal.whole? x = some n) :
    Float.ofInt n = x ∨ n = 0 ∧ x = -0 := by
  obtain ⟨negative, significand, exponent, k, hparts, rfl, hk⟩ := exists_of_whole? h
  have hx := ofUnpacked_unpacked x
  rw [parts_eq] at hparts
  cases hunpacked : unpacked x with
  | notANumber =>
      rw [hunpacked] at hparts
      cases hparts
  | infinity s =>
      rw [hunpacked] at hparts
      cases hparts
  | zero s =>
      rw [hunpacked] at hparts hx
      cases hparts
      obtain rfl : k = 0 := by simpa using hk
      rw [← hx]
      cases s with
      | positive => exact .inl rfl
      | negative => exact .inr ⟨rfl, rfl⟩
  | finite s m t hm =>
      have hcanonical := isCanonical_of_unpacked hunpacked
      rw [hunpacked] at hparts hx
      obtain ⟨rfl, rfl, rfl⟩ := Decimal.Parts.finite.inj hparts
      have hpos : (0 : ℚ) < k := by
        rw [hk]
        positivity
      have hround : RoundsTo (k * 10 ^ (0 : Int)) m t := by
        rw [zpow_zero, mul_one, hk]
        exact .self
      left
      have hk : 0 < k := Nat.cast_pos.1 hpos
      rw [ofInt_eq_toFloat hk,
        toFloat_eq_of_roundsTo hk (by decide) (by decide) hcanonical hround, ← hx]
      cases s <;> rfl

end Binary64

/-- What the numbers and functions of formulas stand for in a field. The laws are those by which a
symbolic expression writes one function as another. -/
structure Interpretation (K : Type) [Field K] where
  image : Float → K
  sin : K → K
  cos : K → K
  tan : K → K
  cot : K → K
  exp : K → K
  log : K → K
  sqrt : K → K
  pow : K → K → K
  image_neg_zero : image (-0) = image 0
  image_neg_one : image (-1) = -1
  image_two : image 2 = 2
  cot_eq : ∀ a, cot a = 1 / tan a
  pow_two : ∀ a, pow a 2 = a * a
  pow_neg_one : ∀ a, pow a (-1) = 1 / a
  pow_half : ∀ a, pow a (1 / 2) = sqrt a

variable {K : Type} [Field K]

/-- What an operator makes of the readings of its operands. Every quotient has a value, and so has
every root and logarithm. No tree has an operator over other counts of operands. -/
def Operator.readIn (r : Interpretation K) (op : Operator) (values : List K) : K :=
  match op, values with
  | .mul, values => values.prod
  | .add, values => values.sum
  | .div, [a, b] => a / b
  | .sub, [a, b] => a - b
  | .pow, [a, b] => r.pow a b
  | .sqr, [a] => a * a
  | .sqrt, [a] => r.sqrt a
  | .sin, [a] => r.sin a
  | .cos, [a] => r.cos a
  | .tan, [a] => r.tan a
  | .cot, [a] => 1 / r.tan a
  | .exp, [a] => r.exp a
  | .log, [a] => r.log a
  | _, _ => 0

def Node.readIn (r : Interpretation K) (x : K) (node : Node Float) (values : List K) : K :=
  match node.kind with
  | .argument => x
  | .constant => r.image node.value
  | .operator op => op.readIn r values
  | .unknown _ => 0

/-- The reading of a tree, operator by operator, where the variable stands for an element. -/
def Tree.readIn (r : Interpretation K) (x : K) (t : Tree Float) (i : Nat) (hi : i < t.size) : K :=
  t.foldFrom (fun _ node values => node.readIn r x values) i hi

def SymbolicFunction.readIn (r : Interpretation K) : SymbolicFunction → K → K
  | sin => r.sin
  | cos => r.cos
  | tan => r.tan
  | cot => r.cot
  | exp => r.exp
  | log => r.log

namespace Symbolic

mutual

/-- The reading of a symbolic expression, where the symbol of the given name stands for an element.
Whole numbers stand for what their doubles do. Other symbols have no reading, nor have infinities
and what is no number. -/
def readIn (r : Interpretation K) (name : Text) (x : K) : Symbolic Float → Option K
  | symbol other => if other = name then some x else none
  | integer value => some (r.image (Float.ofInt value))
  | half => some (1 / 2)
  | number value => some (r.image value)
  | pi => some (r.image Literal.pi)
  | infinity | negativeInfinity | nan => none
  | sum terms => (readAllIn r name x terms).map List.sum
  | product factors => (readAllIn r name x factors).map List.prod
  | power base exponent => do return r.pow (← base.readIn r name x) (← exponent.readIn r name x)
  | apply function argument => (argument.readIn r name x).map (function.readIn r)

def readAllIn (r : Interpretation K) (name : Text) (x : K) : List (Symbolic Float) → Option (List K)
  | [] => some []
  | s :: rest => do return (← s.readIn r name x) :: (← readAllIn r name x rest)

end

variable {r : Interpretation K} {name : Text} {x : K}

theorem readAllIn_of_forall₂ {operands : List (Symbolic Float)} {values : List K}
    (h : List.Forall₂ (fun s v => readIn r name x s = some v) operands values) :
    readAllIn r name x operands = some values := by
  induction h with
  | nil => rfl
  | cons hfirst _ ih =>
      rw [readAllIn, hfirst, ih]
      rfl

theorem readIn_power {base exponent : Symbolic Float} {a b : K}
    (hbase : readIn r name x base = some a) (hexponent : readIn r name x exponent = some b) :
    readIn r name x (power base exponent) = some (r.pow a b) := by
  rw [readIn, hbase, hexponent]
  rfl

theorem readIn_product {a b : Symbolic Float} {v w : K} (ha : readIn r name x a = some v)
    (hb : readIn r name x b = some w) : readIn r name x (product [a, b]) = some (v * w) := by
  rw [readIn, readAllIn_of_forall₂ (.cons ha (.cons hb .nil)), Option.map_some, List.prod_pair]

theorem readIn_sum {a b : Symbolic Float} {v w : K} (ha : readIn r name x a = some v)
    (hb : readIn r name x b = some w) : readIn r name x (sum [a, b]) = some (v + w) := by
  rw [readIn, readAllIn_of_forall₂ (.cons ha (.cons hb .nil)), Option.map_some, List.sum_pair]

theorem readIn_neg_one : readIn r name x (integer (-1)) = some (-1) := by
  rw [readIn, ← r.image_neg_one]
  rfl

theorem readIn_two : readIn r name x (integer 2) = some 2 := by
  rw [readIn, ← r.image_two]
  rfl

theorem exists_single {β γ : Type} {R : β → γ → Prop} {operands : List β} {v : γ}
    (h : List.Forall₂ R operands [v]) : ∃ a, operands = [a] ∧ R a v := by
  obtain ⟨a, _, ha, hnone, rfl⟩ := List.forall₂_cons_right_iff.1 h
  obtain rfl := List.forall₂_nil_right_iff.1 hnone
  exact ⟨a, rfl, ha⟩

theorem exists_pair {β γ : Type} {R : β → γ → Prop} {operands : List β} {v w : γ}
    (h : List.Forall₂ R operands [v, w]) : ∃ a b, operands = [a, b] ∧ R a v ∧ R b w := by
  obtain ⟨a, _, ha, hrest, rfl⟩ := List.forall₂_cons_right_iff.1 h
  obtain ⟨b, rfl, hb⟩ := exists_single hrest
  exact ⟨a, b, rfl, ha, hb⟩

theorem readIn_ofOperator {op : Operator} {operands : List (Symbolic Float)} {values : List K}
    (haccepts : op.arity.accepts values.length)
    (h : List.Forall₂ (fun s v => readIn r name x s = some v) operands values) :
    readIn r name x (ofOperator op operands) = some (op.readIn r values) := by
  cases op with
  | mul | add =>
      rw [ofOperator, readIn, readAllIn_of_forall₂ h]
      rfl
  | div =>
      obtain ⟨v, w, rfl⟩ := Carrier.exists_pair_of_accepts haccepts
      obtain ⟨a, b, rfl, ha, hb⟩ := exists_pair h
      rw [ofOperator, readIn_product ha (readIn_power hb readIn_neg_one), r.pow_neg_one,
        mul_one_div]
      rfl
  | sub =>
      obtain ⟨v, w, rfl⟩ := Carrier.exists_pair_of_accepts haccepts
      obtain ⟨a, b, rfl, ha, hb⟩ := exists_pair h
      rw [ofOperator, readIn_sum ha (readIn_product readIn_neg_one hb), neg_one_mul,
        ← sub_eq_add_neg]
      rfl
  | pow =>
      obtain ⟨v, w, rfl⟩ := Carrier.exists_pair_of_accepts haccepts
      obtain ⟨a, b, rfl, ha, hb⟩ := exists_pair h
      exact readIn_power ha hb
  | sqr =>
      obtain ⟨v, rfl⟩ := Carrier.exists_single_of_accepts haccepts
      obtain ⟨a, rfl, ha⟩ := exists_single h
      rw [ofOperator, readIn_power ha readIn_two, r.pow_two]
      rfl
  | sqrt =>
      obtain ⟨v, rfl⟩ := Carrier.exists_single_of_accepts haccepts
      obtain ⟨a, rfl, ha⟩ := exists_single h
      rw [ofOperator, readIn_power ha rfl, r.pow_half]
      rfl
  | cot =>
      obtain ⟨v, rfl⟩ := Carrier.exists_single_of_accepts haccepts
      obtain ⟨a, rfl, ha⟩ := exists_single h
      rw [ofOperator, readIn, ha, Option.map_some]
      exact congrArg some (r.cot_eq v)
  | sin | cos | tan | exp | log =>
      obtain ⟨v, rfl⟩ := Carrier.exists_single_of_accepts haccepts
      obtain ⟨a, rfl, ha⟩ := exists_single h
      rw [ofOperator, readIn, ha]
      rfl

theorem readIn_ofConstant {value : Float} (hnumber : value.isNaN = false)
    (hfinite : value.isInf = false) :
    readIn r name x (ofConstant value) = some (r.image value) := by
  unfold ofConstant
  split
  · rename_i hpi
    rw [Binary64.eq_of_beq hpi (by decide) (by decide)]
    rfl
  · split
    · rename_i n hwhole
      rcases Binary64.ofInt_of_whole? hwhole with hvalue | ⟨rfl, rfl⟩
      · rw [readIn, hvalue]
      · rw [readIn, r.image_neg_zero]
        rfl
    · rw [Binary64.parts_eq]
      cases hunpacked : Binary64.unpacked value with
      | notANumber => exact absurd hunpacked (Binary64.isNaN_eq_false_iff.1 hnumber)
      | infinity s =>
          have hinf : (Binary64.unpacked value).isInf = false := hfinite
          rw [hunpacked] at hinf
          cases hinf
      | zero s => rfl
      | finite s m t hm => rfl

theorem ofOperator_ne {op : Operator} {operands : List (Symbolic Float)} :
    (∀ other, ofOperator op operands ≠ symbol other) ∧ ofOperator op operands ≠ pi := by
  unfold ofOperator
  split <;> exact ⟨nofun, nofun⟩

/-- Of constants just the circle constant goes by its name, and none goes by the name of a
variable. -/
theorem ofConstant_cases (value : Float) :
    (value = Literal.pi ∧ ofConstant value = pi) ∨
      (value ≠ Literal.pi ∧ ofConstant value ≠ pi ∧ ∀ other, ofConstant value ≠ symbol other) := by
  by_cases hpi : (value == Literal.pi) = true
  · exact .inl ⟨Binary64.eq_of_beq hpi (by decide) (by decide), if_pos hpi⟩
  · refine .inr ⟨?_, ?_⟩
    · intro hvalue
      subst hvalue
      exact hpi (by decide)
    · rw [ofConstant, if_neg hpi]
      split
      · exact ⟨nofun, nofun⟩
      · split
        · exact ⟨nofun, nofun⟩
        · split <;> exact ⟨nofun, nofun⟩
        · exact ⟨nofun, nofun⟩

end Symbolic

namespace Tree

variable {t : Tree Float}

theorem readIn_eq (r : Interpretation K) (x : K) {i : Nat} (hi : i < t.size) :
    t.readIn r x i hi =
      (t.node i hi).readIn r x (t.operands (fun _ node values => node.readIn r x values) i hi) :=
  foldFrom_eq t _ hi

theorem symbolicAt_eq {i : Nat} (hi : i < t.size) : t.symbolicAt i hi =
    Symbolic.ofNode t.symbol (t.node i hi)
      (t.operands (fun _ node operands => Symbolic.ofNode t.symbol node operands) i hi) :=
  foldFrom_eq t _ hi

theorem isNaN_constant {i : Nat} (hi : i < t.size) (hkind : (t.node i hi).kind = .constant) :
    (t.node i hi).value.isNaN = false := by
  obtain ⟨place, hcheck⟩ := t.checkNode_node hi
  exact ((Arena.checkNode_constant_iff hkind).1 hcheck).2

/-- The expression of a subtree is read as the subtree is. -/
theorem readIn_symbolicAt (hfinite : ∀ value ∈ t.constants, value.isInf = false)
    (r : Interpretation K) (x : K) {i : Nat} (hi : i < t.size) :
    (t.symbolicAt i hi).readIn r t.symbol x = some (t.readIn r x i hi) := by
  induction i, hi using place_induction with
  | node i hi ih =>
      rw [symbolicAt_eq, readIn_eq]
      rcases t.node_cases hi with ⟨op, hkind, haccepts⟩ | ⟨hkind | hkind, -⟩
      · rw [Symbolic.ofNode, Node.readIn, hkind]
        refine Symbolic.readIn_ofOperator ?_ ?_
        · rwa [t.length_operands]
        · rw [operands, operands, List.forall₂_map_left_iff, List.forall₂_map_right_iff,
            List.forall₂_same]
          intro child _
          exact ih child.val child.property
      · rw [Symbolic.ofNode, Node.readIn, hkind]
        exact if_pos rfl
      · rw [Symbolic.ofNode, Node.readIn, hkind]
        exact Symbolic.readIn_ofConstant (isNaN_constant hi hkind)
          (hfinite _ (mem_constants (Array.getElem_mem_toList hi) hkind))

/-- A subtree goes by the name of the variable just if it is the variable, and by that of the circle
constant just if it is the circle constant. -/
theorem symbolicAt_names {i : Nat} (hi : i < t.size) :
    (∀ name, t.symbolicAt i hi = .symbol name ↔
      (t.node i hi).kind = .argument ∧ name = t.symbol) ∧
    (t.symbolicAt i hi = .pi ↔
      (t.node i hi).kind = .constant ∧ (t.node i hi).value = Literal.pi) := by
  rw [symbolicAt_eq]
  rcases t.node_cases hi with ⟨op, hkind, -⟩ | ⟨hkind | hkind, -⟩
  · rw [Symbolic.ofNode, hkind]
    constructor
    · intro name
      refine iff_of_false (Symbolic.ofOperator_ne.1 name) ?_
      intro h
      cases h.1
    · refine iff_of_false Symbolic.ofOperator_ne.2 ?_
      intro h
      cases h.1
  · rw [Symbolic.ofNode, hkind]
    constructor
    · intro name
      rw [Symbolic.symbol.injEq, and_iff_right rfl, eq_comm]
    · constructor
      · intro h
        cases h
      · intro h
        cases h.1
  · rw [Symbolic.ofNode, hkind]
    rcases Symbolic.ofConstant_cases (t.node i hi).value with ⟨hpi, hname⟩ | ⟨hpi, hname, hsymbol⟩
    · rw [hname]
      refine ⟨?_, iff_of_true rfl ⟨rfl, hpi⟩⟩
      intro name
      constructor
      · intro h
        cases h
      · intro h
        cases h.1
    · constructor
      · intro name
        refine iff_of_false (hsymbol name) ?_
        intro h
        cases h.1
      · refine iff_of_false hname ?_
        intro h
        exact hpi h.2

end Tree

/-- A tree without infinities is converted into an expression, and no node is of a kind that cannot
be. In every field and under every interpretation the expression and the tree are read alike. The
variable is never taken for the circle constant nor the circle constant for the variable, whatever
the name of the variable is. -/
theorem Tree.toSymbolic_keeps_reading (t : Tree Float)
    (hfinite : ∀ value ∈ t.constants, value.isInf = false) (r : Interpretation K) (x : K) :
    EndsWith (t.nodes.Recurs id (Arena.convertNode t.symbol) 0) (.ok t.toSymbolic) ∧
    t.toSymbolic.readIn r t.symbol x = some (t.readIn r x 0 t.size_pos) ∧
    ∀ i : Fin t.size,
      EndsWith (t.nodes.Recurs id (Arena.convertNode t.symbol) i) (.ok (t.symbolicAt i i.isLt)) ∧
      (t.symbolicAt i i.isLt).readIn r t.symbol x = some (t.readIn r x i i.isLt) ∧
      (∀ name, t.symbolicAt i i.isLt = .symbol name ↔
        (t.node i i.isLt).kind = .argument ∧ name = t.symbol) ∧
      (t.symbolicAt i i.isLt = .pi ↔
        (t.node i i.isLt).kind = .constant ∧ (t.node i i.isLt).value = Literal.pi) := by
  refine ⟨t.recurs_convert t.size_pos, readIn_symbolicAt hfinite r x t.size_pos, ?_⟩
  intro i
  exact ⟨t.recurs_convert i.isLt, readIn_symbolicAt hfinite r x i.isLt, symbolicAt_names i.isLt⟩

noncomputable def realImage (x : Float) : ℝ :=
  match Decimal.parts x with
  | .finite negative significand exponent =>
    (if negative then -1 else 1) * significand * 2 ^ exponent
  | _ => 0

theorem realImage_of_parts {x : Float} {negative : Bool} {significand : Nat} {exponent : Int}
    (h : Decimal.parts x = .finite negative significand exponent) :
    realImage x = (if negative then -1 else 1) * significand * 2 ^ exponent := by
  rw [realImage, h]

noncomputable def realInterpretation : Interpretation ℝ where
  image := realImage
  sin := Real.sin
  cos := Real.cos
  tan := Real.tan
  cot a := 1 / Real.tan a
  exp := Real.exp
  log := Real.log
  sqrt := Real.sqrt
  pow := fun a b => a ^ b
  image_neg_zero := by
    have hneg : Decimal.parts (-0) = .finite true 0 (-1074) := by decide +kernel
    have hzero : Decimal.parts 0 = .finite false 0 (-1074) := by decide +kernel
    rw [realImage_of_parts hneg, realImage_of_parts hzero]
    norm_num
  image_neg_one := by
    have h : Decimal.parts (-1) = .finite true (2 ^ 52) (-52) := by decide +kernel
    rw [realImage_of_parts h]
    norm_num
  image_two := by
    have h : Decimal.parts 2 = .finite false (2 ^ 52) (-51) := by decide +kernel
    rw [realImage_of_parts h]
    norm_num
  cot_eq _ := rfl
  pow_two a := by rw [Real.rpow_two, sq]
  pow_neg_one a := by rw [Real.rpow_neg_one, one_div]
  pow_half a := (Real.sqrt_eq_rpow a).symm

def circleQuotient : Tree Float :=
  Term.toTree
    (.apply .div [.leaf (.constant Literal.pi), .apply .sqr [.leaf .argument]])
    (.apply rfl (by
      simp only [List.forall_mem_cons, List.not_mem_nil, false_implies, implies_true, and_true]
      refine ⟨.leaf ?_, .apply rfl ?_⟩
      · show Float.isNaN _ = false
        decide
      · simp only [List.forall_mem_cons, List.not_mem_nil, false_implies, implies_true, and_true]
        exact .leaf trivial)) Literal.piToken

theorem toSymbolic_keeps_circleQuotient :
    (∀ value ∈ circleQuotient.constants, value.isInf = false) ∧
      circleQuotient.toSymbolic.readIn realInterpretation Literal.piToken 2 =
        some (realImage Literal.pi / (2 * 2)) := by
  have hfinite : ∀ value ∈ circleQuotient.constants, value.isInf = false := by
    have hconstants : circleQuotient.constants = [Literal.pi] := rfl
    rw [hconstants, List.forall_mem_singleton]
    decide
  have hvalue : circleQuotient.readIn realInterpretation 2 0 circleQuotient.size_pos =
      realImage Literal.pi / (2 * 2) := by
    have hargument : circleQuotient.readIn realInterpretation 2 3 (by decide) = 2 := by
      rw [Tree.readIn_eq]
      rfl
    rw [Tree.readIn_eq]
    show circleQuotient.readIn realInterpretation 2 1 (by decide) /
      circleQuotient.readIn realInterpretation 2 2 (by decide) = _
    rw [Tree.readIn_eq, Tree.readIn_eq]
    show realImage Literal.pi / (circleQuotient.readIn realInterpretation 2 3 (by decide) *
      circleQuotient.readIn realInterpretation 2 3 (by decide)) = _
    rw [hargument]
  have hread := (circleQuotient.toSymbolic_keeps_reading hfinite realInterpretation 2).2.1
  exact ⟨hfinite, hread.trans (congrArg some hvalue)⟩

end PrefixIntegral
