import PrefixIntegral.Console.Breakdown
import PrefixIntegral.Console.Word
import PrefixIntegral.Decimal.Read
import PrefixIntegral.Settings.Setting
import PrefixIntegral.Text.Numeral

namespace PrefixIntegral

/-- What a command line asks for, while its words are being taken. An option whose value was the
separator has no text, number or verbosity, and an empty list as a setting. -/
structure Wishes where
  formula : Option Text
  symbol : Option Text
  points : List (Option Float)
  lower : Option (Option Float)
  upper : Option (Option Float)
  order : Setting
  grain : Setting
  workers : Setting
  chunkSize : Setting
  symbolic : Bool
  tree : Bool
  level : Option Verbosity
  excess : List Text

/-- Why the taking of words ends early: help was asked for, a word is at fault, or the run breaks
down. -/
inductive EarlyEnd where
  | help
  | fault (fault : UsageFault)
  | broken (breakdown : Breakdown)

namespace Wishes

def initial : Wishes where
  formula := none
  symbol := some ['x']
  points := []
  lower := none
  upper := none
  order := .text ['2']
  grain := .text "coarse".toList
  workers := .integer 1
  chunkSize := .integer 8192
  symbolic := false
  tree := false
  level := some .minimal
  excess := []

def content (given : Text) : Option Text :=
  if given = Word.separatorText then none else some given

def setting (given : Text) : Setting :=
  match content given with
  | some text => .text text
  | none => .list []

def number (c : Choice) (given : Text) : Except EarlyEnd (Option Float) :=
  match content given with
  | none => .ok none
  | some text =>
    match Decimal.readNumber? text with
    | some x => .ok (some x)
    | none => .error (.fault (.notNumber c text))

def whole (c : Choice) (given : Text) : Except EarlyEnd Setting :=
  match content given with
  | none => .ok (.list [])
  | some text =>
    match Text.readWhole? text with
    | some n => .ok (.integer n)
    | none => .error (.fault (.notWhole c text))

def verbosity (c : Choice) (given : Text) : Except EarlyEnd (Option Verbosity) :=
  match content given with
  | none => .ok none
  | some text =>
    match Verbosity.all.find? fun v => Text.toSmall v.name.toList = text with
    | some v => .ok (some v)
    | none => .error (.fault (.unknownLevel c text))

def take (w : Wishes) (c : Choice) (given : Text) : Except EarlyEnd Wishes :=
  match c with
  | .help => .error .help
  | .symbol => .ok { w with symbol := content given }
  | .points => (number c given).map fun x => { w with points := w.points ++ [x] }
  | .lower => (number c given).map fun x => { w with lower := some x }
  | .upper => (number c given).map fun x => { w with upper := some x }
  | .order => .ok { w with order := setting given }
  | .grain => .ok { w with grain := setting given }
  | .workers => (whole c given).map fun n => { w with workers := n }
  | .chunkSize => (whole c given).map fun n => { w with chunkSize := n }
  | .symbolic => .ok { w with symbolic := true }
  | .tree => .ok { w with tree := true }
  | .level => (verbosity c given).map fun level => { w with level }

def takeAll (w : Wishes) : List (Choice × Text) → Except EarlyEnd Wishes
  | [] => .ok w
  | (c, given) :: rest => do (← w.take c given).takeAll rest

def exceed (w : Wishes) (text : Text) : Wishes := { w with excess := w.excess ++ [text] }

end Wishes

/-- What the word of an option stands for: options with their values, and whether the next word
is taken as a value. -/
structure OptionGroup where
  options : List (Choice × Text)
  takesNext : Bool

namespace OptionGroup

def alone (next : Option Word) (c : Choice) : Except UsageFault OptionGroup :=
  if c.takesValue then
    match next with
    | some (.value given) => .ok ⟨[(c, given)], true⟩
    | _ => .error (.valueMissing c)
  else .ok ⟨[(c, [])], false⟩

/-- Letters in one word: after an option that takes no value the next letter stands for an
option too, and an option that takes one has the rest of the word as its value. -/
def ofLetters (next : Option Word) (c : Choice) : Text → Except UsageFault OptionGroup
  | [] => alone next c
  | letter :: rest =>
    if c.takesValue then .ok ⟨[(c, letter :: rest)], false⟩
    else
      match Choice.ofLetter? letter with
      | none => .error (.valueNotTaken c (letter :: rest))
      | some following =>
        (ofLetters next following rest).map fun g => { g with options := (c, []) :: g.options }

def ofWord (next : Option Word) (c : Choice) (byLetter : Bool) :
    Option Text → Except UsageFault OptionGroup
  | none => alone next c
  | some given =>
    if byLetter && !given.isEmpty then ofLetters next c given
    else if c.takesValue then .ok ⟨[(c, given)], false⟩
    else .error (.valueNotTaken c given)

end OptionGroup

namespace Wishes

/-- Takes the words of a command line. A separator goes with the formula beside it. -/
def takeWords (w : Wishes) (words : List Word) : Except EarlyEnd Wishes :=
  match words with
  | [] => .ok w
  | .option c byLetter attached :: rest =>
    match OptionGroup.ofWord rest.head? c byLetter attached with
    | .error fault => .error (.fault fault)
    | .ok group =>
      match w.takeAll group.options with
      | .error stop => .error stop
      | .ok w => w.takeWords (rest.drop (if group.takesNext then 1 else 0))
  | .unknown text :: rest => (w.exceed text).takeWords rest
  | .value text :: rest =>
    if w.formula.isNone then
      { w with formula := some text }.takeWords
        (rest.drop (if rest.head? = some Word.separator then 1 else 0))
    else (w.exceed text).takeWords rest
  | .separator :: rest =>
    match w.formula, rest.head? with
    | none, some (.value text) => { w with formula := some text }.takeWords (rest.drop 1)
    | _, _ => (w.exceed Word.separatorText).takeWords rest
  termination_by words.length
  decreasing_by all_goals simp only [List.length_cons, List.length_drop]; omega

/-- Where the run breaks down after the formula and the settings have been accepted, if it does:
the symbol is used before the numbers. -/
def breakdown? (w : Wishes) : Option Breakdown :=
  if w.symbolic && w.symbol.isNone then some .symbol
  else if w.points.any Option.isNone || w.lower.any Option.isNone || w.upper.any Option.isNone then
    some .number
  else none

def soundPoints (w : Wishes) : List Float := (w.points.takeWhile Option.isSome).filterMap id

def limits (w : Wishes) : Except UsageFault (Option (Float × Float)) :=
  match w.lower, w.upper with
  | some (some lower), some (some upper) => .ok (some (lower, upper))
  | some _, some _ | none, none => .ok none
  | _, _ => .error .limitMissing

end Wishes

/-- What a command line asks for, up to where the run breaks down if it does. An absent symbol is
empty, which no word of a formula is. -/
structure Arguments where
  formula : Text
  symbol : Text
  points : List Float
  limits : Option (Float × Float)
  order : Setting
  grain : Setting
  workers : Setting
  chunkSize : Setting
  symbolic : Bool
  tree : Bool
  level : Verbosity
  breakdown : Option Breakdown

namespace Arguments

def ofWishes (w : Wishes) : Except EarlyEnd Arguments :=
  match w.formula with
  | none => .error (.fault .formulaMissing)
  | some formula =>
    if w.excess.isEmpty then
      match w.level with
      | none => .error (.broken .verbosity)
      | some level =>
        match w.limits with
        | .error fault => .error (.fault fault)
        | .ok limits =>
          .ok {
            formula, limits, level
            symbol := w.symbol.getD []
            points := w.soundPoints
            order := w.order
            grain := w.grain
            workers := w.workers
            chunkSize := w.chunkSize
            symbolic := w.symbolic
            tree := w.tree
            breakdown := w.breakdown? }
    else .error (.fault (.unrecognized w.excess))

def read (words : List Text) : Except EarlyEnd Arguments := do
  let words ← (Word.ofTexts words).mapError .fault
  ofWishes (← Wishes.initial.takeWords words)

end Arguments

end PrefixIntegral
