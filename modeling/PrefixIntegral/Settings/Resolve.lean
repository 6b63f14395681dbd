import PrefixIntegral.Quadrature.Rule
import PrefixIntegral.Settings.Setting
import PrefixIntegral.Text.Letter
import PrefixIntegral.Text.Numeral

namespace PrefixIntegral

inductive SettingFault where
  | unknownOrder (name : Text)
  | orderNotInteger (given : Setting)
  | orderOutOfRange (value : Int)
  | unknownGrain (name : Text)
  | grainNotInteger (given : Setting)
  | grainNotPositive (value : Int)
  | chunkSize (given : Setting)
  | workers (given : Setting)

namespace SettingFault

def culprit? : SettingFault → Option String
  | unknownOrder name | unknownGrain name => some (String.ofList (Text.quoted name))
  | orderOutOfRange value | grainNotPositive value => Text.writeWhole? value
  | orderNotInteger given | grainNotInteger given | chunkSize given | workers given =>
    given.describe?

def complaint : SettingFault → String
  | unknownOrder _ => "Unknown approximation order: "
  | orderNotInteger _ => "Approximation order must be an integer, got "
  | orderOutOfRange _ => "Approximation order must be between 0 and 5, got "
  | unknownGrain _ => "Unknown grain: "
  | grainNotInteger _ => "Grain must be an integer, got "
  | grainNotPositive _ => "Grain must be positive, got "
  | chunkSize _ => "chunk_size must be a positive integer, got "
  | workers _ => "workers must be a positive integer, got "

def report? (fault : SettingFault) : Option String := fault.culprit?.map (fault.complaint ++ ·)

/-- What a fault is called. One that cannot be reported passes for a fault of writing a number. -/
def name (fault : SettingFault) : String :=
  if fault.report?.isSome then "ConfigurationError" else "ValueError"

def message (fault : SettingFault) : String := fault.report?.getD Text.numeralLimitMessage

end SettingFault

abbrev Count := { n : Nat // 0 < n }

namespace Settings

def toCount? (value : Int) : Option Count :=
  if h : 0 < value then some ⟨value.toNat, by omega⟩ else none

@[simp] theorem toCount?_count (count : Count) : toCount? count.val = some count := by
  have hpos := count.property
  rw [toCount?, dif_pos (by omega)]
  rfl

def orderWord : Text := ['O', 'R', 'D', 'E', 'R', '_']

def orderOfInt (value : Int) : Except SettingFault Order :=
  if h : 0 ≤ value ∧ value < 6 then .ok ⟨value.toNat, by omega⟩
  else .error (.orderOutOfRange value)

def resolveOrder : Setting → Except SettingFault Order
  | .text name =>
    let word := Text.toCapitals (Text.trim name)
    let numeral := if orderWord.isPrefixOf word then word.drop orderWord.length else word
    match Text.readWhole? numeral with
    | some value => orderOfInt value
    | none => .error (.unknownOrder name)
  | given =>
    match given.whole? with
    | some value => orderOfInt value
    | none => .error (.orderNotInteger given)

def presets : List (Text × Count) := [
  (['C', 'O', 'A', 'R', 'S', 'E'], ⟨1000, by decide⟩),
  (['M', 'E', 'D', 'I', 'U', 'M'], ⟨10000, by decide⟩),
  (['F', 'I', 'N', 'E'], ⟨100000, by decide⟩)]

def coarse : Count := ⟨1000, by decide⟩

def medium : Count := ⟨10000, by decide⟩

def fine : Count := ⟨100000, by decide⟩

def grainOfInt (value : Int) : Except SettingFault Count :=
  match toCount? value with
  | some count => .ok count
  | none => .error (.grainNotPositive value)

def resolveGrain : Setting → Except SettingFault Count
  | .text name =>
    let word := Text.trim name
    match presets.find? (·.1 = Text.toCapitals word) with
    | some (_, count) => .ok count
    | none =>
      match Text.readWhole? word with
      | some value => grainOfInt value
      | none => .error (.unknownGrain name)
  | given =>
    match given.whole? with
    | some value => grainOfInt value
    | none => .error (.grainNotInteger given)

def resolveCount (fault : Setting → SettingFault) (given : Setting) : Except SettingFault Count :=
  match given.builtIn?.bind toCount? with
  | some count => .ok count
  | none => .error (fault given)

end Settings

end PrefixIntegral
