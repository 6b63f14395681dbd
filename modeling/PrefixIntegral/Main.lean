import PrefixIntegral.Console.Command
import PrefixIntegral.Tree.Infix

/-!
The program. It runs the command on the words it was started with; the clock stands still while
it runs, and symbolic forms are rendered as they stand.
-/

/-- Writes the lines of the outcome and gives its status; a breakdown is reported as an error. -/
def main (words : List String) : IO UInt32 := do
  let now := (← IO.monoMsNow).toFloat / 1000
  let render (expression : PrefixIntegral.Symbolic Float) := String.ofList expression.write
  match PrefixIntegral.Command.run render (fun _ => now) (words.map String.toList) with
  | .ok outcome =>
    for line in outcome.output do IO.println line
    for line in outcome.errors do IO.eprintln line
    return outcome.status.toUInt32
  | .error breakdown =>
    IO.eprintln (breakdown.name ++ ": " ++ breakdown.message)
    return 1
