import PrefixIntegral.Text.Blank

/-!
Where the entries of a journal go. Outlets are attached to a board, some by the application and
some by the journal itself. The journal puts up its own all at once, and takes down those of the
time before; those of the application it never touches.
-/

namespace PrefixIntegral

inductive Sink where
  | stream | standardError | file (name : Text)
  deriving DecidableEq, Repr

/-- Who attached an outlet. Every outlet of the journal has a number of its own. -/
inductive Owner where
  | application (tag : Nat)
  | journal (number : Nat)
  deriving DecidableEq, Repr

structure Outlet where
  owner : Owner
  sink : Sink
  deriving DecidableEq, Repr

/-- The outlets attached, in order, and those that the journal put up last. -/
structure Board where
  attached : List Outlet
  installed : List Outlet
  nextNumber : Nat

namespace Board

def empty : Board := ⟨[], [], 0⟩

def attach (b : Board) (o : Outlet) : Board :=
  if o ∈ b.attached then b else { b with attached := b.attached ++ [o] }

def detach (b : Board) (o : Outlet) : Board :=
  { b with attached := b.attached.filter (· ≠ o) }

/-- Outlets of the journal to the given sinks, numbered from a number on. -/
def numbered (number : Nat) (sinks : List Sink) : List Outlet :=
  (sinks.zipIdx number).map fun (sink, n) => ⟨.journal n, sink⟩

def install (b : Board) (sinks : List Sink) : Board :=
  let outlets := numbered b.nextNumber sinks
  ⟨b.attached.filter (· ∉ b.installed) ++ outlets, outlets, b.nextNumber + sinks.length⟩

def deliver {ε : Type} (b : Board) (entries : List ε) : List (Sink × ε) :=
  entries.flatMap fun entry => b.attached.map fun outlet => (outlet.sink, entry)

end Board

end PrefixIntegral
