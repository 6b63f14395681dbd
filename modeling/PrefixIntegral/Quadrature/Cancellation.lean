/-!
Cancellation. A batch asks before it starts whether the integration has been cancelled; once a
check finds that it has, every later one does.
-/

namespace PrefixIntegral

abbrev Passes := Option Nat

namespace Passes

def unlimited : Passes := none

def exhausted : Passes := some 0

def allows (p : Passes) : Bool := p != some 0

def next (p : Passes) : Passes := p.map (· - 1)

end Passes

end PrefixIntegral
