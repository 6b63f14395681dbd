import PrefixIntegral.Quadrature.Integral

namespace PrefixIntegral

inductive DeskRequest where
  | make (id : String) (integrand : Integrand) (order grain : Option Setting) (symbol : Text)
      (configuration : Configuration)
  | integrate (id : String) (lower upper : Float) (passes : Passes)
  | step (id : String) (lower upper : Float)
  | setFormula (id : String) (integrand : Integrand) (symbol : Option Text)
  | setOrder (id : String) (setting : Setting)
  | setGrain (id : String) (setting : Setting)
  | copy (id target : String)

/-- What a request gives: a number, nothing, or why it was refused, and the warnings. -/
structure DeskReply where
  result : Except IntegralFault (Option Float)
  warnings : List String

abbrev Desk := List (String × Integral)

namespace Desk

def find? (d : Desk) (id : String) : Option Integral := d.lookup id

def put (d : Desk) (id : String) (i : Integral) : Desk :=
  (id, i) :: d.filter fun entry => entry.1 != id

def done : DeskReply := ⟨.ok none, []⟩

def accept (d : Desk) (id : String) : Except IntegralFault Integral → Desk × DeskReply
  | .ok i => (d.put id i, done)
  | .error fault => (d, ⟨.error fault, []⟩)

def withIntegral (d : Desk) (id : String) (work : Integral → Desk × DeskReply) :
    Desk × DeskReply :=
  match d.find? id with
  | some i => work i
  | none => (d, done)

def answer (d : Desk) : DeskRequest → Desk × DeskReply
  | .make id integrand order grain symbol configuration =>
    d.accept id (Integral.make integrand order grain symbol configuration)
  | .integrate id lower upper passes => d.withIntegral id fun i =>
    let run := i.integrate lower upper passes
    (d, ⟨match run.result with
      | .ok value => .ok (some value)
      | .error fault => .error (.integration fault), run.warnings⟩)
  | .step id lower upper => d.withIntegral id fun i =>
    match i.step lower upper with
    | .error fault => (d, ⟨.error (.integration (.step fault)), []⟩)
    | .ok step => (d, ⟨.ok (some step.width), if step.reversed then [swappedLimits] else []⟩)
  | .setFormula id integrand symbol => d.withIntegral id fun i =>
    d.accept id (i.setFormula integrand symbol)
  | .setOrder id setting => d.withIntegral id fun i => d.accept id (i.setOrder setting)
  | .setGrain id setting => d.withIntegral id fun i => d.accept id (i.setGrain setting)
  | .copy id target => d.withIntegral id fun i => (d.put target i, done)

def answerAll (d : Desk) : List DeskRequest → Desk × List DeskReply
  | [] => (d, [])
  | request :: rest =>
    let (d, reply) := d.answer request
    let (d, replies) := answerAll d rest
    (d, reply :: replies)

end Desk

end PrefixIntegral
