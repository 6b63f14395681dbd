import PrefixIntegral.Formula.Literal

namespace PrefixIntegral

structure Problem where
  name : String
  description : String
  formula : Text
  lower : Float
  upper : Float
  category : String
  symbol : Text
  exact : Float

namespace Problem

def inX (name description formula : String) (lower upper : Float) (category : String)
    (exact : Float) : Problem :=
  ⟨name, description, formula.toList, lower, upper, category, ['x'], exact⟩

def standard : List Problem := [
  inX "linear" "Identity on the unit interval" "(+ x 0)" 0 1 "polynomial" 0.5,
  inX "cubic" "x^3 - 2x + 1" "(+ (pow x 3) (* -2 x) 1)" (-1) 2 "polynomial" 3.75,
  inX "quintic" "x^5, exact for order 4 and above" "(pow x 5)" 0 2 "polynomial"
    10.666666666666666,
  inX "sine_half_wave" "sin(x) over one half period" "(sin x)" 0 Literal.pi "trigonometric" 2,
  inX "circle_area" "pi * x^2 (area of a disc of radius x)" "(* pi (sqr x))" 0 2 "polynomial"
    8.377580409572783,
  inX "damped_cosine" "exp(-x) cos(3x)" "(* (exp (- 0 x)) (cos (* 3 x)))" 0 5 "transcendental"
    0.10182635518960738,
  inX "logarithm" "log(x) on [1, e]" "(log x)" 1 2.718281828459045 "transcendental"
    0.9999999999999999,
  inX "square_root" "sqrt(x) with an infinite slope at 0" "(sqrt x)" 0 4 "transcendental"
    5.333333333333333,
  inX "gaussian" "exp(-x^2)" "(exp (- 0 (sqr x)))" (-3) 3 "transcendental" 1.7724146965190424]

end Problem

end PrefixIntegral
