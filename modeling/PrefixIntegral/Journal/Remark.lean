import PrefixIntegral.Decimal.Places
import PrefixIntegral.Journal.Verbosity
import PrefixIntegral.Text.Column

namespace PrefixIntegral

inductive Figure where
  | number (value : Float)
  | whole (value : Int)
  | text (value : Text)

/-- How a summary shows a figure: a number with at most twelve significant digits, anything else
as it is. -/
def Figure.write : Figure → Text
  | number value => Decimal.general 12 value
  | whole value => (toString value).toList
  | text value => value

abbrev Summary := List (Text × Figure)

namespace Summary

/-- Puts a figure under a name. A name keeps the line where it first appeared. -/
def put (s : Summary) (name : Text) (figure : Figure) : Summary :=
  if s.any (·.1 == name) then s.map fun line => if line.1 == name then (name, figure) else line
  else s ++ [(name, figure)]

def ofList (figures : List (Text × Figure)) : Summary :=
  figures.foldl (fun s line => s.put line.1 line.2) []

/-- A line of a summary: the name, dots up to the thirtieth column, and the figure. -/
def line (name : Text) (figure : Figure) : Text :=
  Text.padRight 30 '.' name ++ ' ' :: figure.write

end Summary

structure Entry where
  severity : Severity
  message : String
  deriving DecidableEq, Repr

def Entry.write (e : Entry) : String := e.severity.name ++ " - " ++ e.message

/-- Something said to a journal. Progress is said at a time, for it is written down only now and
then. -/
inductive Remark where
  | info (message : String) (required : Verbosity)
  | progress (now : Float) (message : String) (forced : Bool)
  | milestone (message : String)
  | warning (message : String)
  | debug (message : String)
  | critical (message : String)
  | summary (figures : Summary)

namespace Remark

def required : Remark → Verbosity
  | info _ required => required
  | progress .. => .moderate
  | milestone _ => .minimal
  | warning _ => .minimal
  | debug _ => .verbose
  | critical _ => .minimal
  | summary _ => .detailed

def rule : String := Column.fill 60 '='

def entries : Remark → List Entry
  | info message _ => [⟨.info, message⟩]
  | progress _ message _ => [⟨.info, "PROGRESS: " ++ message⟩]
  | milestone message => [⟨.info, "MILESTONE: " ++ message⟩]
  | warning message => [⟨.warning, message⟩]
  | debug message => [⟨.debug, "DEBUG: " ++ message⟩]
  | critical message => [⟨.error, "CRITICAL: " ++ message⟩]
  | summary figures =>
    ⟨.info, rule⟩ :: ⟨.info, "INTEGRATION RESULT:"⟩ :: ⟨.info, rule⟩ ::
      figures.map fun line => ⟨.info, String.ofList (Summary.line line.1 line.2)⟩

end Remark

end PrefixIntegral
