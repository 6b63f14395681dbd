import PrefixIntegral.Scalar

/-!
What an operator is applied to: one number at a point, or numbers at many points at once. A
carrier says how operations on single numbers act, and how a domain check looks at every number.
-/

namespace PrefixIntegral

structure Carrier (α β : Type) where
  /-- A number that is the same at every point. -/
  single : α → β
  map : (α → α) → β → β
  zip : (α → α → α) → β → β → β
  /-- A base raised to an exponent. -/
  raise : β → β → β
  /-- Whether some number passes the test. -/
  any : (α → Bool) → β → Bool

/-- Numbers at many points: one that is the same at all of them, or one for each. -/
inductive Lanes (α : Type) where
  | uniform (value : α)
  | each (values : List α)
  deriving Repr

namespace Lanes

variable {α : Type}

def map (f : α → α) : Lanes α → Lanes α
  | uniform value => uniform (f value)
  | each values => each (values.map f)

/-- Applies an operation to numbers for each point in pairs. A list of one number goes with a list
of any length. -/
def pair (f : α → α → α) : List α → List α → List α
  | [a], bs => bs.map (f a)
  | as, [b] => as.map (f · b)
  | as, bs => List.zipWith f as bs

def zip (f : α → α → α) : Lanes α → Lanes α → Lanes α
  | uniform a, uniform b => uniform (f a b)
  | uniform a, each bs => each (bs.map (f a))
  | each as, uniform b => each (as.map (f · b))
  | each as, each bs => each (pair f as bs)

/-- Raises to powers at every point. An exponent that is the same at all points is known before
the bases; one that varies is not. -/
def raise [Scalar α] : Lanes α → Lanes α → Lanes α
  | base, uniform exponent => base.map (Scalar.power · exponent)
  | uniform base, each exponents => each (exponents.map (Scalar.pow base))
  | each [base], each exponents => each (exponents.map (Scalar.pow base))
  | each bases, each [exponent] => each (bases.map (Scalar.power · exponent))
  | each bases, each exponents => each (List.zipWith Scalar.pow bases exponents)

/-- Whether some number passes the test. Where there is no point, a number for each of them is
no number at all, and nothing passes. -/
def any (test : α → Bool) : Lanes α → Bool
  | uniform value => test value
  | each values => values.any test

def spread (count : Nat) : Lanes α → List α
  | uniform value => List.replicate count value
  | each values => values

end Lanes

/-- Points laid out in a grid of a shape, row by row. The empty shape is that of a lone point. -/
structure Grid (α : Type) where
  shape : List Nat
  values : List α
  deriving Repr

namespace Grid

variable {α : Type}

/-- The points as lanes. A lone point is the same everywhere. -/
def lanes (g : Grid α) : Lanes α :=
  match g.shape, g.values with
  | [], [value] => .uniform value
  | _, values => .each values

def fill (g : Grid α) (result : Lanes α) : Grid α := ⟨g.shape, result.spread g.values.length⟩

end Grid

namespace Carrier

variable {α : Type} [Scalar α]

def point : Carrier α α := ⟨id, fun f => f, fun f => f, Scalar.power, fun test => test⟩

def lanes : Carrier α (Lanes α) := ⟨.uniform, Lanes.map, Lanes.zip, Lanes.raise, Lanes.any⟩

end Carrier

end PrefixIntegral
