import PrefixIntegral.Console.Usage
import PrefixIntegral.Text.Digit

/-!
The words of a command line. Each is seen for what it is before any is acted upon: an option by
its full form, by an unambiguous beginning of it or by its letter, perhaps with a value in the
same word; a value; or the separator after which everything is a value.
-/

namespace PrefixIntegral

/-- A word of a command line. An option may have a value in the same word: after an equals sign,
or straight after its letter. -/
inductive Word where
  | value (text : Text)
  | separator
  | option (option : Choice) (byLetter : Bool) (attached : Option Text)
  | unknown (text : Text)
  deriving DecidableEq, Repr

namespace Word

def separatorText : Text := ['-', '-']

def splitAssignment : Text → Text × Option Text
  | [] => ([], none)
  | '=' :: rest => ([], some rest)
  | c :: rest =>
    let (form, assigned) := splitAssignment rest
    (c :: form, assigned)

def isDigits : Text → Bool
  | [] => true
  | ['\n'] => true
  | c :: rest => Text.isDigit c && isDigits rest

def isNumeral (t : Text) : Bool := (t.head?.map Text.isDigit).getD false && isDigits t

def isNegativeNumber : Text → Bool
  | '-' :: rest =>
    isNumeral rest ||
      match rest.dropWhile Text.isDigit with
      | '.' :: fraction => isNumeral fraction
      | _ => false
  | _ => false

/-- A word that begins like an option but is none. It is a value if it is a negative number or has
a space in it. -/
def unmatched (text : Text) : Word :=
  if isNegativeNumber text || ' ' ∈ text then value text else unknown text

def abbreviated (text : Text) : Except UsageFault Word :=
  let (form, assigned) := splitAssignment text
  match Choice.beginningWith form with
  | [] => .ok (unmatched text)
  | [c] => .ok (option c false assigned)
  | several => .error (.ambiguous text several)

def lettered (text : Text) (letter : Char) (rest : Text) : Word :=
  match Choice.ofLetter? letter with
  | none => unmatched text
  | some c => option c true (match rest with
    | [] => none
    | '=' :: given => some given
    | given => some given)

def ofText (text : Text) : Except UsageFault Word :=
  match text with
  | ['-', '-'] => .ok separator
  | '-' :: '-' :: _ => abbreviatedUnlessExact text
  | '-' :: letter :: rest => .ok (lettered text letter rest)
  | _ => .ok (value text)
where
  /-- A full form is taken as it is, though it may be the beginning of another. -/
  abbreviatedUnlessExact (text : Text) : Except UsageFault Word :=
    match Choice.ofLong? text with
    | some c => .ok (option c false none)
    | none =>
      match splitAssignment text with
      | (form, some assigned) =>
        match Choice.ofLong? form with
        | some c => .ok (option c false (some assigned))
        | none => abbreviated text
      | _ => abbreviated text

def ofTexts : List Text → Except UsageFault (List Word)
  | [] => .ok []
  | text :: rest => do
    let word ← ofText text
    if word = separator then return separator :: rest.map value
    else return word :: (← ofTexts rest)

end Word

end PrefixIntegral
