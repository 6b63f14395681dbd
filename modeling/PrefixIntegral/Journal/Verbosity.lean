import PrefixIntegral.Text.Letter
import PrefixIntegral.Text.Quoted

namespace PrefixIntegral

/-- How much a journal says, from nothing at all to every detail. -/
inductive Verbosity where
  | silent | minimal | moderate | detailed | verbose
  deriving DecidableEq, Repr

namespace Verbosity

def all : List Verbosity := [silent, minimal, moderate, detailed, verbose]

def rank : Verbosity → Nat
  | silent => 0
  | minimal => 1
  | moderate => 2
  | detailed => 3
  | verbose => 4

def name : Verbosity → String
  | silent => "SILENT"
  | minimal => "MINIMAL"
  | moderate => "MODERATE"
  | detailed => "DETAILED"
  | verbose => "VERBOSE"

def admits (v required : Verbosity) : Bool := required.rank ≤ v.rank

def ofName? (name : Text) : Option Verbosity :=
  all.find? fun v => v.name.toList = Text.toCapitals name

def unknownNameMessage (name : Text) : String :=
  "Unknown log level: " ++ String.ofList (Text.quoted name)

end Verbosity

inductive Severity where
  | debug | info | warning | error
  deriving DecidableEq, Repr

def Severity.name : Severity → String
  | debug => "DEBUG"
  | info => "INFO"
  | warning => "WARNING"
  | error => "ERROR"

end PrefixIntegral
