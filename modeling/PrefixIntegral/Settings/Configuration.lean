import PrefixIntegral.Settings.Resolve

/-!
The configuration of an integration. Its counts are positive and its order is one of the rules'
by their types, so no configuration has to be checked again.
-/

namespace PrefixIntegral

/-- The rule, the count of sub-intervals, how many of them make a batch, and how many batches are
evaluated at once. -/
structure Configuration where
  order : Order
  grain : Count
  chunkSize : Count
  workers : Count
  deriving DecidableEq

structure GivenSettings where
  order : Option Setting
  grain : Option Setting
  chunkSize : Option Setting
  workers : Option Setting

def GivenSettings.empty : GivenSettings := ⟨none, none, none, none⟩

namespace Configuration

/-- Simpson's rule on the coarse preset, in batches of 8192 evaluated one after another. -/
def default : Configuration :=
  ⟨⟨2, by decide⟩, Settings.coarse, ⟨8192, by decide⟩, ⟨1, by decide⟩⟩

def given {β : Type} (resolve : Setting → Except SettingFault β) (absent : β) :
    Option Setting → Except SettingFault β
  | none => .ok absent
  | some setting => resolve setting

/-- The configuration that settings mean; the first setting refused is reported, in the order of
the fields. -/
def ofSettings (s : GivenSettings) : Except SettingFault Configuration := do
  let order ← given Settings.resolveOrder default.order s.order
  let grain ← given Settings.resolveGrain default.grain s.grain
  let chunkSize ← given (Settings.resolveCount .chunkSize) default.chunkSize s.chunkSize
  let workers ← given (Settings.resolveCount .workers) default.workers s.workers
  return ⟨order, grain, chunkSize, workers⟩

/-- The configuration that names or numbers mean: order and grain are resolved first, and what
they stand for is then configured like any other setting. -/
def ofNames (s : GivenSettings) : Except SettingFault Configuration := do
  let order ← given Settings.resolveOrder default.order s.order
  let grain ← given Settings.resolveGrain default.grain s.grain
  ofSettings { s with
    order := some (.integer order.val)
    grain := some (.integer grain.val) }

def withOrder (c : Configuration) (setting : Setting) : Except SettingFault Configuration :=
  (Settings.resolveOrder setting).map fun order => { c with order }

def withGrain (c : Configuration) (setting : Setting) : Except SettingFault Configuration :=
  (Settings.resolveGrain setting).map fun grain => { c with grain }

def evaluations (c : Configuration) : Nat := c.grain.val * (c.order.val + 1)

def batchCount (c : Configuration) : Nat :=
  (c.grain.val + c.chunkSize.val - 1) / c.chunkSize.val

end Configuration

end PrefixIntegral
