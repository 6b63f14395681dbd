import PrefixIntegral.Formula.Reader
import PrefixIntegral.Quadrature.Run

namespace PrefixIntegral

/-- What an integral is asked to integrate: a formula, a tree read before, or something that is
neither. -/
inductive Integrand where
  | formula (text : Text)
  | tree (tree : Tree Float)
  | other (given : Setting)

inductive IntegralFault where
  | formula (fault : FormulaFault)
  | setting (fault : SettingFault)
  | notAnIntegrand (typeName : String)
  | integration (fault : IntegrationFault)

namespace IntegralFault

def name : IntegralFault → String
  | formula fault => fault.name
  | setting fault => fault.name
  | notAnIntegrand _ => "TypeError"
  | integration fault => fault.name

def message : IntegralFault → String
  | formula fault => fault.message
  | setting fault => fault.message
  | notAnIntegrand typeName => "Expected an ExpressionTree or a formula string, got " ++ typeName
  | integration fault => fault.message

end IntegralFault

namespace Integrand

def resolve (symbol : Text) : Integrand → Except IntegralFault (Tree Float)
  | formula text => (Formula.read text symbol).mapError .formula
  | tree given => .ok given
  | other given => .error (.notAnIntegrand given.typeName)

end Integrand

structure Integral where
  tree : Tree Float
  configuration : Configuration

namespace Integral

def adjusted (change : Configuration → Setting → Except SettingFault Configuration)
    (c : Configuration) : Option Setting → Except IntegralFault Configuration
  | none => .ok c
  | some setting => (change c setting).mapError .setting

/-- Makes an integral of an integrand, a configuration and settings that go before it. -/
def make (integrand : Integrand) (order grain : Option Setting) (symbol : Text)
    (configuration : Configuration) : Except IntegralFault Integral := do
  let tree ← integrand.resolve symbol
  let c ← adjusted Configuration.withOrder configuration order
  let c ← adjusted Configuration.withGrain c grain
  return ⟨tree, c⟩

def integrate (i : Integral) (lower upper : Float) (passes : Passes) : Run Float :=
  i.tree.integrate lower upper i.configuration passes

def step (i : Integral) (lower upper : Float) : Except StepFault (Step Float) :=
  Step.compute lower upper i.configuration.grain.val

/-- The same integral of another integrand. A formula without a symbol of its own is read over
the present one. -/
def setFormula (i : Integral) (integrand : Integrand) (symbol : Option Text) :
    Except IntegralFault Integral :=
  let symbol := match symbol with
    | none | some [] => i.tree.symbol
    | some symbol => symbol
  (integrand.resolve symbol).map fun tree => { i with tree }

def setOrder (i : Integral) (setting : Setting) : Except IntegralFault Integral :=
  (adjusted Configuration.withOrder i.configuration (some setting)).map fun configuration =>
    { i with configuration }

def setGrain (i : Integral) (setting : Setting) : Except IntegralFault Integral :=
  (adjusted Configuration.withGrain i.configuration (some setting)).map fun configuration =>
    { i with configuration }

def describe (i : Integral) : String :=
  "Integral(" ++ String.ofList (Text.quoted i.tree.formula) ++
    s!", order={i.configuration.order.val}, grain={i.configuration.grain.val})"

end Integral

end PrefixIntegral
