import Mathlib.Data.List.Induction
import PrefixIntegral.Proofs.DecimalSettings
import PrefixIntegral.Proofs.Outcome
import PrefixIntegral.Settings.Configuration

/-!
Configurations and how they come about. What settings stand for stands for itself, so it makes no
difference whether settings are resolved once or twice. A configuration that is changed step by step
is the one configured at once by the last order and the last count of sub-intervals that were
accepted, with the length of batches and the workers that it had at first.
-/

namespace PrefixIntegral

open Settings

/-! ## Settings that stand for themselves -/

namespace Settings

@[simp] theorem resolveOrder_order (order : Order) :
    resolveOrder (.integer order.val) = .ok order := by
  show orderOfInt order.val = _
  rw [orderOfInt, dif_pos (by omega)]
  rfl

@[simp] theorem resolveGrain_count (count : Count) :
    resolveGrain (.integer count.val) = .ok count := by
  show grainOfInt count.val = _
  rw [grainOfInt, toCount?_count]

@[simp] theorem resolveCount_count (fault : Setting → SettingFault) (count : Count) :
    resolveCount fault (.integer count.val) = .ok count := by
  have hcount : (Setting.integer count.val).builtIn?.bind toCount? = some count :=
    toCount?_count count
  rw [resolveCount, hcount]

end Settings

/-! ## Reports of what is refused -/

/-- A value that can be shown, and if it is a whole number, as that number. -/
structure Setting.CanBeShown (given : Setting) : Prop where
  described : given.describe?.isSome
  written : ∀ n, given.whole? = some n → (Text.writeWhole? n).isSome

namespace Settings

variable {given : Setting} {fault : SettingFault}

theorem eq_of_orderOfInt {n : Int} (h : orderOfInt n = .error fault) :
    fault = .orderOutOfRange n := by
  unfold orderOfInt at h
  split at h
  · cases h
  · exact (Except.error.inj h).symm

theorem eq_of_grainOfInt {n : Int} (h : grainOfInt n = .error fault) :
    fault = .grainNotPositive n := by
  unfold grainOfInt at h
  split at h
  · cases h
  · exact (Except.error.inj h).symm

theorem isSome_report?_iff : fault.report?.isSome ↔ fault.culprit?.isSome := by
  rw [SettingFault.report?, Option.isSome_map]

theorem isSome_report?_of_resolveOrder (hshown : given.CanBeShown)
    (h : resolveOrder given = .error fault) : fault.report?.isSome := by
  rw [isSome_report?_iff]
  unfold resolveOrder at h
  split at h
  · dsimp only at h
    split at h
    · rename_i n hread
      rw [eq_of_orderOfInt h]
      exact Text.isSome_writeWhole?_of_readWhole? hread
    · rw [← Except.error.inj h]
      rfl
  · split at h
    · rename_i n hwhole
      rw [eq_of_orderOfInt h]
      exact hshown.written n hwhole
    · rw [← Except.error.inj h]
      exact hshown.described

theorem isSome_report?_of_resolveGrain (hshown : given.CanBeShown)
    (h : resolveGrain given = .error fault) : fault.report?.isSome := by
  rw [isSome_report?_iff]
  unfold resolveGrain at h
  split at h
  · dsimp only at h
    split at h
    · cases h
    · split at h
      · rename_i n hread
        rw [eq_of_grainOfInt h]
        exact Text.isSome_writeWhole?_of_readWhole? hread
      · rw [← Except.error.inj h]
        rfl
  · split at h
    · rename_i n hwhole
      rw [eq_of_grainOfInt h]
      exact hshown.written n hwhole
    · rw [← Except.error.inj h]
      exact hshown.described

theorem eq_of_resolveCount {refused : Setting → SettingFault}
    (h : resolveCount refused given = .error fault) : fault = refused given := by
  unfold resolveCount at h
  split at h
  · cases h
  · exact (Except.error.inj h).symm

end Settings

namespace Configuration

def settings (c : Configuration) : GivenSettings where
  order := some (.integer c.order.val)
  grain := some (.integer c.grain.val)
  chunkSize := some (.integer c.chunkSize.val)
  workers := some (.integer c.workers.val)

theorem ofSettings_eq_ok_iff {s : GivenSettings} {c : Configuration} :
    ofSettings s = .ok c ↔
      given resolveOrder default.order s.order = .ok c.order ∧
      given resolveGrain default.grain s.grain = .ok c.grain ∧
      given (resolveCount .chunkSize) default.chunkSize s.chunkSize = .ok c.chunkSize ∧
      given (resolveCount .workers) default.workers s.workers = .ok c.workers := by
  constructor
  · intro h
    obtain ⟨order, horder, h⟩ := bind_eq_ok_iff.1 h
    obtain ⟨grain, hgrain, h⟩ := bind_eq_ok_iff.1 h
    obtain ⟨chunkSize, hchunk, h⟩ := bind_eq_ok_iff.1 h
    obtain ⟨workers, hworkers, h⟩ := bind_eq_ok_iff.1 h
    cases h
    exact ⟨horder, hgrain, hchunk, hworkers⟩
  · rintro ⟨horder, hgrain, hchunk, hworkers⟩
    rw [ofSettings, horder, hgrain, hchunk, hworkers]
    rfl

theorem given_eq_error {β : Type} {resolve : Setting → Except SettingFault β} {absent : β}
    {setting : Option Setting} {fault : SettingFault}
    (h : given resolve absent setting = .error fault) :
    ∃ value, some value = setting ∧ resolve value = .error fault := by
  cases setting with
  | none => cases h
  | some value => exact ⟨value, rfl, h⟩

theorem isSome_report?_of_ofSettings {s : GivenSettings} {fault : SettingFault}
    (hshown : ∀ value, some value ∈ [s.order, s.grain, s.chunkSize, s.workers] →
      value.CanBeShown) (h : ofSettings s = .error fault) : fault.report?.isSome := by
  obtain horder | ⟨order, -, h⟩ := bind_eq_error_iff.1 h
  · obtain ⟨value, hvalue, hrefused⟩ := given_eq_error horder
    exact isSome_report?_of_resolveOrder (hshown value (by simp [hvalue])) hrefused
  obtain hgrain | ⟨grain, -, h⟩ := bind_eq_error_iff.1 h
  · obtain ⟨value, hvalue, hrefused⟩ := given_eq_error hgrain
    exact isSome_report?_of_resolveGrain (hshown value (by simp [hvalue])) hrefused
  obtain hchunk | ⟨chunkSize, -, h⟩ := bind_eq_error_iff.1 h
  · obtain ⟨value, hvalue, hrefused⟩ := given_eq_error hchunk
    rw [eq_of_resolveCount hrefused, isSome_report?_iff]
    exact (hshown value (by simp [hvalue])).described
  obtain hworkers | ⟨workers, -, h⟩ := bind_eq_error_iff.1 h
  · obtain ⟨value, hvalue, hrefused⟩ := given_eq_error hworkers
    rw [eq_of_resolveCount hrefused, isSome_report?_iff]
    exact (hshown value (by simp [hvalue])).described
  · cases h

theorem ofSettings_settings (c : Configuration) : ofSettings c.settings = .ok c :=
  ofSettings_eq_ok_iff.2 ⟨resolveOrder_order _, resolveGrain_count _, resolveCount_count _ _,
    resolveCount_count _ _⟩

theorem ofNames_eq (s : GivenSettings) : ofNames s = ofSettings s := by
  rw [ofNames, ofSettings]
  cases given resolveOrder default.order s.order with
  | error fault => rfl
  | ok order =>
      cases given resolveGrain default.grain s.grain with
      | error fault => rfl
      | ok grain =>
          show ofSettings _ = _
          rw [ofSettings]
          simp only [given, resolveOrder_order, resolveGrain_count]

theorem withOrder_eq (c : Configuration) (setting : Setting) :
    c.withOrder setting = (resolveOrder setting).bind fun order =>
      ofSettings { c.settings with order := some (.integer order.val) } := by
  rw [withOrder]
  cases resolveOrder setting with
  | error fault => rfl
  | ok order => exact (ofSettings_settings { c with order }).symm

theorem withGrain_eq (c : Configuration) (setting : Setting) :
    c.withGrain setting = (resolveGrain setting).bind fun grain =>
      ofSettings { c.settings with grain := some (.integer grain.val) } := by
  rw [withGrain]
  cases resolveGrain setting with
  | error fault => rfl
  | ok grain => exact (ofSettings_settings { c with grain }).symm

end Configuration

/-! ## Changes one after another -/

inductive Update where
  | order (setting : Setting)
  | grain (setting : Setting)

namespace Update

def attempt (c : Configuration) : Update → Except SettingFault Configuration
  | order setting => c.withOrder setting
  | grain setting => c.withGrain setting

def order? : Update → Option Setting
  | order setting => some setting
  | grain _ => none

def grain? : Update → Option Setting
  | order _ => none
  | grain setting => some setting

end Update

namespace Configuration

/-- The configuration after an update, which is the one before it if the update is refused. -/
def updated (c : Configuration) (update : Update) : Configuration :=
  match update.attempt c with
  | .ok next => next
  | .error _ => c

def updatedAll (c : Configuration) (updates : List Update) : Configuration :=
  updates.foldl updated c

def lastAccepted {β : Type} (resolve : Setting → Except SettingFault β) (settings : List Setting) :
    Option Setting :=
  settings.reverse.find? fun setting => (resolve setting).isOk

/-- Settings with the last order and the last count of sub-intervals that updates bring. -/
def replaced (s : GivenSettings) (updates : List Update) : GivenSettings :=
  { s with
    order := (lastAccepted resolveOrder (updates.filterMap Update.order?)).or s.order
    grain := (lastAccepted resolveGrain (updates.filterMap Update.grain?)).or s.grain }

theorem lastAccepted_concat {β : Type} (resolve : Setting → Except SettingFault β)
    (settings : List Setting) (last : Setting) : lastAccepted resolve (settings ++ [last]) =
      if (resolve last).isOk then some last else lastAccepted resolve settings := by
  rw [lastAccepted, List.reverse_concat, List.find?_cons]
  cases (resolve last).isOk <;> rfl

theorem updated_order (c : Configuration) (setting : Setting) :
    c.updated (.order setting) =
      ((resolveOrder setting).map fun order => { c with order }).toOption.getD c := by
  rw [updated, Update.attempt, withOrder]
  cases resolveOrder setting <;> rfl

theorem updated_grain (c : Configuration) (setting : Setting) :
    c.updated (.grain setting) =
      ((resolveGrain setting).map fun grain => { c with grain }).toOption.getD c := by
  rw [updated, Update.attempt, withGrain]
  cases resolveGrain setting <;> rfl

theorem ofSettings_replaced_concat {s : GivenSettings} {c : Configuration} {updates : List Update}
    (h : ofSettings (replaced s updates) = .ok c) (last : Update) :
    ofSettings (replaced s (updates ++ [last])) = .ok (c.updated last) := by
  obtain ⟨horder, hgrain, hchunk, hworkers⟩ := ofSettings_eq_ok_iff.1 h
  cases last with
  | order setting =>
      have horders : (updates ++ [Update.order setting]).filterMap Update.order? =
          updates.filterMap Update.order? ++ [setting] := List.filterMap_append
      have hgrains : (updates ++ [Update.order setting]).filterMap Update.grain? =
          updates.filterMap Update.grain? := List.filterMap_append.trans (List.append_nil _)
      rw [replaced, horders, hgrains, lastAccepted_concat, updated_order]
      cases hsetting : resolveOrder setting with
      | error fault => exact h
      | ok order => exact ofSettings_eq_ok_iff.2 ⟨hsetting, hgrain, hchunk, hworkers⟩
  | grain setting =>
      have horders : (updates ++ [Update.grain setting]).filterMap Update.order? =
          updates.filterMap Update.order? := List.filterMap_append.trans (List.append_nil _)
      have hgrains : (updates ++ [Update.grain setting]).filterMap Update.grain? =
          updates.filterMap Update.grain? ++ [setting] := List.filterMap_append
      rw [replaced, horders, hgrains, lastAccepted_concat, updated_grain]
      cases hsetting : resolveGrain setting with
      | error fault => exact h
      | ok grain => exact ofSettings_eq_ok_iff.2 ⟨horder, hsetting, hchunk, hworkers⟩

/-- What updates lead to is what the last of their settings that are accepted configure at once. -/
theorem ofSettings_replaced {s : GivenSettings} {c : Configuration} (h : ofSettings s = .ok c)
    (updates : List Update) : ofSettings (replaced s updates) = .ok (c.updatedAll updates) := by
  induction updates using List.reverseRecOn with
  | nil => exact h
  | append_singleton updates last ih =>
      rw [updatedAll, List.foldl_append]
      exact ofSettings_replaced_concat ih last

theorem attempt_error_iff {c other : Configuration} {update : Update} {fault : SettingFault} :
    update.attempt c = .error fault ↔ update.attempt other = .error fault := by
  cases update with
  | order setting =>
      rw [Update.attempt, Update.attempt, withOrder, withOrder]
      cases resolveOrder setting <;> simp [Except.map]
  | grain setting =>
      rw [Update.attempt, Update.attempt, withGrain, withGrain]
      cases resolveGrain setting <;> simp [Except.map]

/-- Configurations by settings of any type. Settings mean one configuration, or are refused for one
reason, whether names are resolved first or not, and the refusal is reported as that of a
configuration if all settings can be shown; and a change resolves all settings again without a
difference. From a configuration, updates lead to the one that is configured at once by the last
order and the last count of sub-intervals that were accepted, with batches and workers as they were:
so an update of the one kind may come before or after one of the other. It is refused for the same
reason at any time, and a refused one changes nothing. An order or a count of sub-intervals may be
given as decimal text, the length of batches and the workers may not. -/
theorem configured_by_last_settings :
    (∀ s, ofNames s = ofSettings s ∧
      ∀ fault, ofSettings s = .error fault →
        (∀ value, some value ∈ [s.order, s.grain, s.chunkSize, s.workers] → value.CanBeShown) →
          fault.name = "ConfigurationError") ∧
    (∀ (c : Configuration) (setting : Setting),
      c.withOrder setting = ((resolveOrder setting).bind fun order =>
        ofSettings { c.settings with order := some (.integer order.val) }) ∧
      c.withGrain setting = ((resolveGrain setting).bind fun grain =>
        ofSettings { c.settings with grain := some (.integer grain.val) })) ∧
    (∀ s c, ofSettings s = .ok c → ∀ updates,
      let last := c.updatedAll updates
      (last.order.val ≤ 5 ∧ 0 < last.grain.val ∧ 0 < last.chunkSize.val ∧ 0 < last.workers.val) ∧
      ofSettings (replaced s updates) = .ok last ∧
      (∀ others : List Update,
        others.filterMap Update.order? = updates.filterMap Update.order? →
        others.filterMap Update.grain? = updates.filterMap Update.grain? →
          c.updatedAll others = last) ∧
      ∀ update fault, update.attempt last = .error fault →
        last.updated update = last ∧ update.attempt c = .error fault) ∧
    (∀ refused word, resolveCount refused (.text word) = .error (refused (.text word))) ∧
    ∀ (n : Int) (before after word : Text),
      (Nat.toDigits 10 n.natAbs).length ≤ Text.numeralLimit →
      (∀ c ∈ before, Text.isBlank c = true) → (∀ c ∈ after, Text.isBlank c = true) →
      word = [] ∨ word.map Char.toUpper = orderWord →
        resolveGrain (.text (before ++ (toString n).toList ++ after)) =
          resolveGrain (.integer n) ∧
        resolveOrder (.text (before ++ (word ++ (toString n).toList) ++ after)) =
          resolveOrder (.integer n) := by
  refine ⟨fun s => ⟨ofNames_eq s, fun fault h hshown => ?_⟩,
    fun c setting => ⟨c.withOrder_eq setting, c.withGrain_eq setting⟩, ?_, fun _ _ => rfl, ?_⟩
  · exact if_pos (isSome_report?_of_ofSettings hshown h)
  · intro s c h updates last
    refine ⟨⟨Nat.le_of_lt_succ last.order.isLt, last.grain.property, last.chunkSize.property,
      last.workers.property⟩, ofSettings_replaced h updates, ?_, ?_⟩
    · intro others horders hgrains
      have hothers := ofSettings_replaced h others
      rw [replaced, horders, hgrains] at hothers
      exact Except.ok.inj (hothers.symm.trans (ofSettings_replaced h updates))
    · intro update fault hfault
      refine ⟨?_, attempt_error_iff.1 hfault⟩
      rw [updated, hfault]
  · intro n before after word hlimit hbefore hafter hword
    exact ⟨resolveGrain_toString hlimit hbefore hafter,
      resolveOrder_toString hlimit hbefore hafter hword⟩

/-- The defaults with an order as text, a count that is refused, and a preset. -/
theorem configured_by_last_settings_default :
    let updates : List Update := [.order (.text [' ', '5']), .grain (.integer 0),
      .grain (.text ['f', 'i', 'n', 'e'])]
    ofSettings (replaced .empty updates) = .ok (default.updatedAll updates) ∧
      resolveOrder (.text ['o', 'r', 'd', 'e', 'R', '_', '-', '7', ' ']) =
        resolveOrder (.integer (-7)) := by
  intro updates
  obtain ⟨-, -, hupdates, -, hdecimal⟩ := configured_by_last_settings
  refine ⟨(hupdates .empty default rfl updates).2.1, ?_⟩
  exact (hdecimal (-7) [] [' '] ['o', 'r', 'd', 'e', 'R', '_'] (by decide) nofun
    (List.forall_mem_singleton.2 rfl) (.inr (by decide))).2

def longNumber : Int := (10 ^ Text.numeralLimit : Nat)

theorem lt_length_toDigits {count : Nat} (h : 0 < count) :
    count < (Nat.toDigits 10 (10 ^ count)).length := by
  rw [← Nat.not_le, Nat.length_toDigits_le_iff (by decide) h]
  exact Nat.lt_irrefl _

theorem ten_le_pow {count : Nat} (h : 0 < count) : 10 ≤ 10 ^ count :=
  Nat.le_self_pow (Nat.ne_of_gt h) 10

theorem writeWhole?_longNumber : Text.writeWhole? longNumber = none := by
  refine if_neg ?_
  rw [longNumber, Int.natAbs_natCast]
  exact Nat.not_le.2 (lt_length_toDigits (by decide))

theorem resolveOrder_of_le {n : Int} (h : 6 ≤ n) :
    resolveOrder (.integer n) = .error (.orderOutOfRange n) := by
  refine dif_neg fun hrange => ?_
  omega

theorem six_le_longNumber : 6 ≤ longNumber := by
  have hlarge : 10 ≤ 10 ^ Text.numeralLimit := ten_le_pow (by decide)
  exact Int.ofNat_le.2 (Nat.le_trans (by decide) hlarge)

/-- A number that is too long to be shown is refused by either way to configure, but not as a
configuration; and two workers, or batches of two, may not be asked for by text. -/
theorem refused_beyond_limits :
    (let long := { GivenSettings.empty with order := some (.integer longNumber) }
      ∃ fault, ofSettings long = .error fault ∧ ofNames long = .error fault ∧
        fault.name = "ValueError" ∧ fault.message = Text.numeralLimitMessage) ∧
    (∃ c, ofSettings { GivenSettings.empty with workers := some (.integer 2) } = .ok c) ∧
    ofSettings { GivenSettings.empty with workers := some (.text ['2']) } =
      .error (.workers (.text ['2'])) ∧
    (∃ c, ofSettings { GivenSettings.empty with chunkSize := some (.integer 2) } = .ok c) ∧
    ofSettings { GivenSettings.empty with chunkSize := some (.text ['2']) } =
      .error (.chunkSize (.text ['2'])) := by
  refine ⟨?_, ⟨_, rfl⟩, rfl, ⟨_, rfl⟩, rfl⟩
  have hrefused : ofSettings { GivenSettings.empty with order := some (.integer longNumber) } =
      .error (.orderOutOfRange longNumber) := by
    rw [ofSettings, given, resolveOrder_of_le six_le_longNumber]
    rfl
  have hreport : (SettingFault.orderOutOfRange longNumber).report? = none := by
    rw [SettingFault.report?, SettingFault.culprit?, writeWhole?_longNumber]
    rfl
  refine ⟨_, hrefused, (ofNames_eq _).trans hrefused, ?_, ?_⟩
  · rw [SettingFault.name, hreport]
    rfl
  · rw [SettingFault.message, hreport]
    rfl

end Configuration

end PrefixIntegral
