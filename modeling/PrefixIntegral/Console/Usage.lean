import PrefixIntegral.Console.Choice
import PrefixIntegral.Journal.Verbosity

namespace PrefixIntegral

inductive UsageFault where
  | ambiguous (given : Text) (options : List Choice)
  | valueMissing (option : Choice)
  | valueNotTaken (option : Choice) (value : Text)
  | notNumber (option : Choice) (value : Text)
  | notWhole (option : Choice) (value : Text)
  | unknownLevel (option : Choice) (value : Text)
  | formulaMissing
  | unrecognized (words : List Text)
  | limitMissing
  deriving DecidableEq, Repr

namespace UsageFault

def separated (separator : String) : List String → String
  | [] => ""
  | [text] => text
  | text :: rest => text ++ separator ++ separated separator rest

def about (option : Choice) (report : String) : String :=
  "argument " ++ option.title ++ ": " ++ report

def quoted (value : Text) : String := String.ofList (Text.quoted value)

def levelNames : List Text := Verbosity.all.map fun v => Text.toSmall v.name.toList

def message : UsageFault → String
  | ambiguous given options =>
    "ambiguous option: " ++ String.ofList given ++ " could match " ++
      separated ", " (options.map fun c => String.ofList c.long)
  | valueMissing option => about option "expected one argument"
  | valueNotTaken option value => about option ("ignored explicit argument " ++ quoted value)
  | notNumber option value => about option ("invalid float value: " ++ quoted value)
  | notWhole option value => about option ("invalid int value: " ++ quoted value)
  | unknownLevel option value =>
    about option ("invalid choice: " ++ quoted value ++ " (choose from " ++
      separated ", " (levelNames.map quoted) ++ ")")
  | formulaMissing => "the following arguments are required: formula"
  | unrecognized words =>
    "unrecognized arguments: " ++ separated " " (words.map String.ofList)
  | limitMissing => "--from and --to must be given together"

end UsageFault

end PrefixIntegral
