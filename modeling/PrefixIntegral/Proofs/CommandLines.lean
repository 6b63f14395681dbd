import PrefixIntegral.Console.Arguments
import PrefixIntegral.Proofs.Configurations

/-!
What the words of a command line come to. Options in full, on either side of a formula, are taken
one after another; where one is given more than once its last value counts, except that all points
are kept. Whatever the words are, the settings that are taken from them can be shown.
-/

namespace PrefixIntegral

namespace Choice

def inFull (option : Choice × Text) : Text :=
  if option.1.takesValue then option.1.long ++ '=' :: option.2 else option.1.long

def valuesOf (c : Choice) (options : List (Choice × Text)) : List Text :=
  (options.filter (·.1 = c)).map Prod.snd

/-- The last value given for an option, or a default. -/
def textOf (c : Choice) (default : Text) (options : List (Choice × Text)) : Text :=
  (c.valuesOf options).getLast?.getD default

theorem not_mem_long (c : Choice) : '=' ∉ c.long := by
  cases c <;> decide

theorem ofLong?_long (c : Choice) : ofLong? c.long = some c := by
  cases c <;> rfl

theorem ofLong?_of_mem {text : Text} (h : '=' ∈ text) : ofLong? text = none := by
  refine List.find?_eq_none.2 fun c _ => ?_
  rw [decide_eq_true_iff]
  rintro rfl
  exact c.not_mem_long h

end Choice

namespace Word

def ofOption (option : Choice × Text) : Word :=
  .option option.1 false (if option.1.takesValue then some option.2 else none)

theorem splitAssignment_append {form : Text} (h : '=' ∉ form) (given : Text) :
    splitAssignment (form ++ '=' :: given) = (form, some given) := by
  induction form with
  | nil => rfl
  | cons c rest ih =>
      obtain ⟨hc, hrest⟩ := not_or.1 (mt List.mem_cons.2 h)
      rw [List.cons_append, splitAssignment, ih hrest]
      rintro rfl
      exact hc rfl

theorem ofText_of_dashes {text : Text} {c d : Char} {rest : Text}
    (h : text = '-' :: '-' :: c :: d :: rest) :
    ofText text = ofText.abbreviatedUnlessExact text := by
  rw [h]
  rfl

theorem exists_long_eq (c : Choice) : ∃ first second rest,
    c.long = '-' :: '-' :: first :: second :: rest := by
  cases c <;> exact ⟨_, _, _, rfl⟩

theorem ofText_inFull (option : Choice × Text) :
    ofText (Choice.inFull option) = .ok (ofOption option) := by
  obtain ⟨c, given⟩ := option
  obtain ⟨first, second, rest, hlong⟩ := exists_long_eq c
  unfold Choice.inFull ofOption
  dsimp only
  cases htakes : c.takesValue with
  | false =>
      rw [if_neg Bool.false_ne_true, if_neg Bool.false_ne_true, ofText_of_dashes hlong,
        ofText.abbreviatedUnlessExact, c.ofLong?_long]
  | true =>
      have hdashes : c.long ++ '=' :: given =
          '-' :: '-' :: first :: second :: (rest ++ '=' :: given) := by
        rw [hlong]
        rfl
      rw [if_pos rfl, if_pos rfl, ofText_of_dashes hdashes, ofText.abbreviatedUnlessExact,
        Choice.ofLong?_of_mem (by simp), splitAssignment_append c.not_mem_long]
      simp only [c.ofLong?_long]

theorem ofText_formula {formula : Text} (h : formula.head? ≠ some '-') :
    ofText formula = .ok (.value formula) := by
  unfold ofText
  split
  · exact absurd rfl h
  · exact absurd rfl h
  · exact absurd rfl h
  · rfl

theorem ofTexts_cons {text : Text} {word : Word} (h : ofText text = .ok word)
    (hword : word ≠ .separator) (rest : List Text) :
    ofTexts (text :: rest) = (ofTexts rest).map (word :: ·) := by
  rw [ofTexts, h]
  show (if word = separator then _ else _) = _
  rw [if_neg hword]
  cases ofTexts rest <;> rfl

theorem ofTexts_options (options : List (Choice × Text)) (rest : List Text) :
    ofTexts (options.map Choice.inFull ++ rest) =
      (ofTexts rest).map (options.map ofOption ++ ·) := by
  induction options with
  | nil =>
      rw [List.map_nil, List.nil_append]
      cases ofTexts rest <;> rfl
  | cons option others ih =>
      rw [List.map_cons, List.cons_append, ofTexts_cons (ofText_inFull option) nofun, ih]
      cases ofTexts rest <;> rfl

/-- How a formula with options in full on either side is seen. -/
theorem ofTexts_around {formula : Text} (h : formula.head? ≠ some '-')
    (before after : List (Choice × Text)) :
    ofTexts (before.map Choice.inFull ++ formula :: after.map Choice.inFull) =
      .ok (before.map ofOption ++ .value formula :: after.map ofOption) := by
  have hafter := ofTexts_options after []
  rw [List.append_nil] at hafter
  rw [ofTexts_options, ofTexts_cons (ofText_formula h) nofun, hafter]
  simp only [ofTexts, Except.map, List.append_nil]

end Word

namespace Wishes

variable {w w' : Wishes} {c : Choice} {given : Text} {options : List (Choice × Text)}

theorem take_nil_of_not_takesValue (h : c.takesValue = false) (w : Wishes) (given : Text) :
    w.take c [] = w.take c given := by
  cases c <;> first | rfl | cases h

theorem ofWord_ofOption (next : Option Word) (c : Choice) (given : Text) :
    OptionGroup.ofWord next c false (if c.takesValue then some given else none) =
      .ok ⟨[(c, if c.takesValue then given else [])], false⟩ := by
  cases htakes : c.takesValue with
  | true => exact if_pos htakes
  | false => exact if_neg (by simp [htakes])

theorem takeAll_word (w : Wishes) (c : Choice) (given : Text) :
    w.takeAll [(c, if c.takesValue then given else [])] = w.take c given := by
  have htake : w.take c (if c.takesValue then given else []) = w.take c given := by
    cases htakes : c.takesValue with
    | true => rfl
    | false => exact take_nil_of_not_takesValue htakes w given
  rw [takeAll, htake]
  cases w.take c given <;> rfl

theorem takeWords_options (w : Wishes) (options : List (Choice × Text)) (rest : List Word) :
    w.takeWords (options.map Word.ofOption ++ rest) =
      (w.takeAll options).bind fun taken => taken.takeWords rest := by
  induction options generalizing w with
  | nil => rfl
  | cons option others ih =>
      obtain ⟨c, given⟩ := option
      rw [List.map_cons, List.cons_append, Word.ofOption, takeWords, ofWord_ofOption]
      dsimp only
      rw [takeAll_word, takeAll]
      cases w.take c given with
      | error stop => rfl
      | ok taken => exact ih taken

theorem takeWords_formula (hnone : w.formula = none) {rest : List Word}
    (hrest : rest.head? ≠ some .separator) (formula : Text) :
    w.takeWords (.value formula :: rest) =
      { w with formula := some formula }.takeWords rest := by
  rw [takeWords, if_pos (by simp [hnone]), if_neg hrest]
  rfl

/-- What is wished for once options have been given values, one after another. -/
structure Holds (w : Wishes) (values : Choice → List Text) : Prop where
  symbol : w.symbol = some ((values .symbol).getLast?.getD ['x'])
  points : w.points = (values .points).map Decimal.readNumber?
  points_isSome : ∀ point ∈ w.points, point.isSome
  lower : w.lower = (values .lower).getLast?.map Decimal.readNumber?
  lower_isSome : ∀ limit ∈ w.lower, limit.isSome
  upper : w.upper = (values .upper).getLast?.map Decimal.readNumber?
  upper_isSome : ∀ limit ∈ w.upper, limit.isSome
  order : w.order = .text ((values .order).getLast?.getD ['2'])
  grain : w.grain = .text ((values .grain).getLast?.getD "coarse".toList)
  workers : ∃ n, Text.readWhole? ((values .workers).getLast?.getD ['1']) = some n ∧
    w.workers = .integer n
  chunkSize : ∃ n, Text.readWhole? ((values .chunkSize).getLast?.getD "8192".toList) = some n ∧
    w.chunkSize = .integer n
  symbolic : w.symbolic = !(values .symbolic).isEmpty
  tree : w.tree = !(values .tree).isEmpty
  level : ∃ v : Verbosity, w.level = some v ∧
    Text.toSmall v.name.toList = (values .level).getLast?.getD "minimal".toList

theorem holds_initial : initial.Holds fun _ => [] where
  symbol := rfl
  points := rfl
  points_isSome := nofun
  lower := rfl
  lower_isSome := nofun
  upper := rfl
  upper_isSome := nofun
  order := rfl
  grain := rfl
  workers := ⟨1, by decide +kernel, rfl⟩
  chunkSize := ⟨8192, by decide +kernel, rfl⟩
  symbolic := rfl
  tree := rfl
  level := ⟨.minimal, rfl, by decide⟩

theorem content_of_ne (h : given ≠ Word.separatorText) : content given = some given := if_neg h

theorem number_eq_ok {found : Option Float} (hgiven : given ≠ Word.separatorText)
    (h : number c given = .ok found) : found = Decimal.readNumber? given ∧ found.isSome := by
  unfold number at h
  rw [content_of_ne hgiven] at h
  dsimp only at h
  split at h
  · rename_i x hread
    cases h
    exact ⟨hread.symm, rfl⟩
  · cases h

theorem whole_eq_ok {found : Setting} (hgiven : given ≠ Word.separatorText)
    (h : whole c given = .ok found) : ∃ n, Text.readWhole? given = some n ∧ found = .integer n := by
  unfold whole at h
  rw [content_of_ne hgiven] at h
  dsimp only at h
  split at h
  · rename_i n hread
    cases h
    exact ⟨n, hread, rfl⟩
  · cases h

theorem verbosity_eq_ok {found : Option Verbosity} (hgiven : given ≠ Word.separatorText)
    (h : verbosity c given = .ok found) :
    ∃ v : Verbosity, found = some v ∧ Text.toSmall v.name.toList = given := by
  unfold verbosity at h
  rw [content_of_ne hgiven] at h
  dsimp only at h
  split at h
  · rename_i v hfound
    cases h
    have hname := List.find?_some hfound
    exact ⟨v, rfl, of_decide_eq_true hname⟩
  · cases h

theorem setting_of_ne (hgiven : given ≠ Word.separatorText) : setting given = .text given := by
  rw [setting, content_of_ne hgiven]

theorem getD_getLast?_concat (texts : List Text) (last default : Text) :
    (texts ++ [last]).getLast?.getD default = last := by
  rw [List.getLast?_concat]
  rfl

theorem map_getLast?_concat {β : Type} (f : Text → β) (texts : List Text) (last : Text) :
    (texts ++ [last]).getLast?.map f = some (f last) := by
  rw [List.getLast?_concat]
  rfl

theorem Holds.take {values : Choice → List Text} (h : w.Holds values)
    (hgiven : given ≠ Word.separatorText) (htake : w.take c given = .ok w') :
    w'.Holds fun d => if d = c then values d ++ [given] else values d := by
  cases c with
  | help => cases htake
  | symbol =>
      cases htake
      have hlast := getD_getLast?_concat (values .symbol) given ['x']
      exact { h with symbol := (content_of_ne hgiven).trans (congrArg some hlast.symm) }
  | points =>
      obtain ⟨point, hpoint, rfl⟩ := map_eq_ok_iff.1 htake
      obtain ⟨rfl, hsome⟩ := number_eq_ok hgiven hpoint
      have hpoints : w.points ++ [Decimal.readNumber? given] =
          (values .points ++ [given]).map Decimal.readNumber? := by
        rw [h.points, List.map_append]
        rfl
      exact { h with
        points := hpoints
        points_isSome :=
          List.forall_mem_append.2 ⟨h.points_isSome, List.forall_mem_singleton.2 hsome⟩ }
  | lower =>
      obtain ⟨limit, hlimit, rfl⟩ := map_eq_ok_iff.1 htake
      obtain ⟨rfl, hsome⟩ := number_eq_ok hgiven hlimit
      have hlast := map_getLast?_concat Decimal.readNumber? (values .lower) given
      exact { h with lower := hlast.symm, lower_isSome := by rintro _ ⟨⟩; exact hsome }
  | upper =>
      obtain ⟨limit, hlimit, rfl⟩ := map_eq_ok_iff.1 htake
      obtain ⟨rfl, hsome⟩ := number_eq_ok hgiven hlimit
      have hlast := map_getLast?_concat Decimal.readNumber? (values .upper) given
      exact { h with upper := hlast.symm, upper_isSome := by rintro _ ⟨⟩; exact hsome }
  | order =>
      cases htake
      have hlast := getD_getLast?_concat (values .order) given ['2']
      exact { h with order := (setting_of_ne hgiven).trans (congrArg Setting.text hlast.symm) }
  | grain =>
      cases htake
      have hlast := getD_getLast?_concat (values .grain) given "coarse".toList
      exact { h with grain := (setting_of_ne hgiven).trans (congrArg Setting.text hlast.symm) }
  | workers =>
      obtain ⟨found, hfound, rfl⟩ := map_eq_ok_iff.1 htake
      obtain ⟨n, hread, rfl⟩ := whole_eq_ok hgiven hfound
      have hlast := getD_getLast?_concat (values .workers) given ['1']
      exact { h with workers := ⟨n, (congrArg Text.readWhole? hlast).trans hread, rfl⟩ }
  | chunkSize =>
      obtain ⟨found, hfound, rfl⟩ := map_eq_ok_iff.1 htake
      obtain ⟨n, hread, rfl⟩ := whole_eq_ok hgiven hfound
      have hlast := getD_getLast?_concat (values .chunkSize) given "8192".toList
      exact { h with chunkSize := ⟨n, (congrArg Text.readWhole? hlast).trans hread, rfl⟩ }
  | symbolic =>
      cases htake
      exact { h with symbolic := by simp }
  | tree =>
      cases htake
      exact { h with tree := by simp }
  | level =>
      obtain ⟨found, hfound, rfl⟩ := map_eq_ok_iff.1 htake
      obtain ⟨v, rfl, hname⟩ := verbosity_eq_ok hgiven hfound
      have hlast := getD_getLast?_concat (values .level) given "minimal".toList
      exact { h with level := ⟨v, rfl, hname.trans hlast.symm⟩ }

theorem take_keeps (htake : w.take c given = .ok w') :
    w'.formula = w.formula ∧ w'.excess = w.excess := by
  cases c with
  | help => cases htake
  | symbol | order | grain | symbolic | tree =>
      cases htake
      exact ⟨rfl, rfl⟩
  | points | lower | upper | workers | chunkSize | level =>
      obtain ⟨found, -, rfl⟩ := map_eq_ok_iff.1 htake
      exact ⟨rfl, rfl⟩

theorem takeAll_keeps (htake : w.takeAll options = .ok w') :
    w'.formula = w.formula ∧ w'.excess = w.excess := by
  induction options generalizing w with
  | nil =>
      cases htake
      exact ⟨rfl, rfl⟩
  | cons option others ih =>
      obtain ⟨taken, hfirst, hrest⟩ := bind_eq_ok_iff.1 htake
      obtain ⟨hformula, hexcess⟩ := ih hrest
      rw [hformula, hexcess]
      exact take_keeps hfirst

theorem Holds.takeAll {values : Choice → List Text} (h : w.Holds values)
    (hgiven : ∀ option ∈ options, option.2 ≠ Word.separatorText)
    (htake : w.takeAll options = .ok w') : w'.Holds fun c => values c ++ c.valuesOf options := by
  induction options generalizing w values with
  | nil =>
      cases htake
      simpa only [Choice.valuesOf, List.filter_nil, List.map_nil, List.append_nil] using h
  | cons option others ih =>
      obtain ⟨d, given⟩ := option
      obtain ⟨hfirst, hothers⟩ := List.forall_mem_cons.1 hgiven
      obtain ⟨taken, htaken, hrest⟩ := bind_eq_ok_iff.1 htake
      convert ih (h.take hfirst htaken) hothers hrest using 2 with c
      by_cases heq : c = d
      · simp [heq, Choice.valuesOf]
      · simp [heq, Ne.symm heq, Choice.valuesOf]

theorem takeWords_around {formula : Text} {before after : List (Choice × Text)} {first : Wishes}
    (hnone : first.formula = none) (hfirst : w.takeAll before = .ok first) :
    w.takeWords (before.map Word.ofOption ++ .value formula :: after.map Word.ofOption) =
      { first with formula := some formula }.takeAll after := by
  have hnext : (after.map Word.ofOption).head? ≠ some .separator := by
    cases after <;> nofun
  have hlast := takeWords_options { first with formula := some formula } after []
  rw [List.append_nil] at hlast
  rw [takeWords_options, bind_of_ok hfirst, takeWords_formula hnone hnext, hlast]
  cases { first with formula := some formula }.takeAll after with
  | error stop => rfl
  | ok second => exact takeWords.eq_1 second

theorem holds_of_takeWords {formula : Text} {before after : List (Choice × Text)}
    (hgiven : ∀ option ∈ before ++ after, option.2 ≠ Word.separatorText)
    (htake : initial.takeWords
      (before.map Word.ofOption ++ .value formula :: after.map Word.ofOption) = .ok w) :
    w.formula = some formula ∧ w.Holds fun c => c.valuesOf (before ++ after) := by
  rw [List.forall_mem_append] at hgiven
  have hsplit := htake
  rw [takeWords_options] at hsplit
  obtain ⟨first, hfirst, -⟩ := bind_eq_ok_iff.1 hsplit
  rw [takeWords_around (takeAll_keeps hfirst).1 hfirst] at htake
  refine ⟨(takeAll_keeps htake).1, ?_⟩
  have hbefore := holds_initial.takeAll hgiven.1 hfirst
  have hformula : { first with formula := some formula }.Holds fun c =>
      [] ++ c.valuesOf before := { hbefore with }
  convert hformula.takeAll hgiven.2 htake using 2 with c
  rw [Choice.valuesOf, List.filter_append, List.map_append]
  rfl

def CanBeShown (w : Wishes) : Prop :=
  w.order.CanBeShown ∧ w.grain.CanBeShown ∧ w.workers.CanBeShown ∧ w.chunkSize.CanBeShown

theorem canBeShown_emptyList : (Setting.list []).CanBeShown := ⟨rfl, nofun⟩

theorem canBeShown_setting (given : Text) : (setting given).CanBeShown := by
  unfold setting
  split
  · exact ⟨rfl, nofun⟩
  · exact canBeShown_emptyList

theorem canBeShown_of_whole {found : Setting} (h : whole c given = .ok found) :
    found.CanBeShown := by
  unfold whole at h
  split at h
  · cases h
    exact canBeShown_emptyList
  · split at h
    · rename_i n hread
      cases h
      have hwritten := Text.isSome_writeWhole?_of_readWhole? hread
      refine ⟨hwritten, ?_⟩
      rintro _ ⟨⟩
      exact hwritten
    · cases h

theorem canBeShown_initial : initial.CanBeShown := by
  have hworkers : whole .workers ['1'] = .ok initial.workers := rfl
  have hchunk : whole .chunkSize "8192".toList = .ok initial.chunkSize := rfl
  exact ⟨⟨rfl, nofun⟩, ⟨rfl, nofun⟩, canBeShown_of_whole hworkers, canBeShown_of_whole hchunk⟩

theorem CanBeShown.take (h : w.CanBeShown) (htake : w.take c given = .ok w') : w'.CanBeShown := by
  obtain ⟨horder, hgrain, hworkers, hchunk⟩ := h
  cases c with
  | help => cases htake
  | symbol | symbolic | tree =>
      cases htake
      exact ⟨horder, hgrain, hworkers, hchunk⟩
  | points | lower | upper | level =>
      obtain ⟨found, -, rfl⟩ := map_eq_ok_iff.1 htake
      exact ⟨horder, hgrain, hworkers, hchunk⟩
  | order =>
      cases htake
      exact ⟨canBeShown_setting given, hgrain, hworkers, hchunk⟩
  | grain =>
      cases htake
      exact ⟨horder, canBeShown_setting given, hworkers, hchunk⟩
  | workers =>
      obtain ⟨found, hfound, rfl⟩ := map_eq_ok_iff.1 htake
      exact ⟨horder, hgrain, canBeShown_of_whole hfound, hchunk⟩
  | chunkSize =>
      obtain ⟨found, hfound, rfl⟩ := map_eq_ok_iff.1 htake
      exact ⟨horder, hgrain, hworkers, canBeShown_of_whole hfound⟩

theorem CanBeShown.takeAll (h : w.CanBeShown) (htake : w.takeAll options = .ok w') :
    w'.CanBeShown := by
  induction options generalizing w with
  | nil =>
      cases htake
      exact h
  | cons option others ih =>
      obtain ⟨taken, htaken, hrest⟩ := bind_eq_ok_iff.1 htake
      exact ih (h.take htaken) hrest

theorem CanBeShown.takeWords {words : List Word} (h : w.CanBeShown)
    (htake : w.takeWords words = .ok w') : w'.CanBeShown := by
  fun_induction Wishes.takeWords w words with
  | case1 =>
      cases htake
      exact h
  | case2 | case3 => cases htake
  | case4 _ _ _ _ _ _ _ _ htaken ih => exact ih (h.takeAll htaken) htake
  | case5 _ _ _ ih | case6 _ _ _ _ ih | case7 _ _ _ _ ih | case8 _ _ _ _ _ ih
  | case9 _ _ _ ih => exact ih h htake

end Wishes

namespace Arguments

variable {a : Arguments} {formula : Text} {options before after : List (Choice × Text)}

/-- What a formula and options ask for: of each option the last value, but all points. -/
structure Answers (a : Arguments) (formula : Text) (options : List (Choice × Text)) : Prop where
  formula : a.formula = formula
  symbol : a.symbol = Choice.symbol.textOf ['x'] options
  points : a.points.map some = (Choice.points.valuesOf options).map Decimal.readNumber?
  lower : a.limits.map Prod.fst =
    (Choice.lower.valuesOf options).getLast?.bind Decimal.readNumber?
  upper : a.limits.map Prod.snd =
    (Choice.upper.valuesOf options).getLast?.bind Decimal.readNumber?
  order : a.order = .text (Choice.order.textOf ['2'] options)
  grain : a.grain = .text (Choice.grain.textOf "coarse".toList options)
  workers : ∃ n, Text.readWhole? (Choice.workers.textOf ['1'] options) = some n ∧
    a.workers = .integer n
  chunkSize : ∃ n, Text.readWhole? (Choice.chunkSize.textOf "8192".toList options) = some n ∧
    a.chunkSize = .integer n
  symbolic : a.symbolic = !(Choice.symbolic.valuesOf options).isEmpty
  tree : a.tree = !(Choice.tree.valuesOf options).isEmpty
  level : Text.toSmall a.level.name.toList = Choice.level.textOf "minimal".toList options
  breakdown : a.breakdown = none

theorem takeWhile_isSome_filterMap {items : List (Option Float)} (h : ∀ item ∈ items, item.isSome) :
    ((items.takeWhile Option.isSome).filterMap id).map some = items := by
  induction items with
  | nil => rfl
  | cons item rest ih =>
      obtain ⟨hitem, hrest⟩ := List.forall_mem_cons.1 h
      obtain ⟨x, rfl⟩ := Option.isSome_iff_exists.1 hitem
      rw [List.takeWhile_cons_of_pos rfl]
      exact congrArg (some x :: ·) (ih hrest)

theorem map_limits {w : Wishes} {limits : Option (Float × Float)} (hlimits : w.limits = .ok limits)
    (hlower : ∀ limit ∈ w.lower, limit.isSome) (hupper : ∀ limit ∈ w.upper, limit.isSome) :
    limits.map Prod.fst = w.lower.join ∧ limits.map Prod.snd = w.upper.join := by
  unfold Wishes.limits at hlimits
  split at hlimits
  · rename_i hfirst hsecond
    cases hlimits
    rw [hfirst, hsecond]
    exact ⟨rfl, rfl⟩
  · rename_i first second hnone hfirst hsecond
    obtain ⟨x, rfl⟩ := Option.isSome_iff_exists.1 (hlower first hfirst)
    obtain ⟨y, rfl⟩ := Option.isSome_iff_exists.1 (hupper second hsecond)
    exact absurd rfl (hnone x y rfl)
  · rename_i hfirst hsecond
    cases hlimits
    rw [hfirst, hsecond]
    exact ⟨rfl, rfl⟩
  · cases hlimits

theorem any_isNone {items : List (Option Float)} (h : ∀ item ∈ items, item.isSome) :
    items.any Option.isNone = false := by
  rw [List.any_eq_false]
  intro item hmem
  rw [← Option.not_isSome, h item hmem]
  exact Bool.false_ne_true

theorem breakdown?_of_holds {w : Wishes} {values : Choice → List Text} (h : w.Holds values) :
    w.breakdown? = none := by
  have hlower : w.lower.any Option.isNone = false := by
    cases hlimit : w.lower with
    | none => rfl
    | some limit => simpa using h.lower_isSome limit hlimit
  have hupper : w.upper.any Option.isNone = false := by
    cases hlimit : w.upper with
    | none => rfl
    | some limit => simpa using h.upper_isSome limit hlimit
  rw [Wishes.breakdown?, h.symbol, any_isNone h.points_isSome, hlower, hupper]
  simp

theorem join_map (found : Option Text) (f : Text → Option Float) :
    (found.map f).join = found.bind f := by
  cases found <;> rfl

theorem answers_of_holds {w : Wishes}
    (h : w.Holds fun c => c.valuesOf options) (hformula : w.formula = some formula)
    (hread : ofWishes w = .ok a) : a.Answers formula options := by
  obtain ⟨v, hlevel, hname⟩ := h.level
  unfold ofWishes at hread
  rw [hformula, hlevel] at hread
  dsimp only at hread
  split at hread
  · split at hread
    · cases hread
    · rename_i limits hlimits
      cases hread
      obtain ⟨hlower, hupper⟩ := map_limits hlimits h.lower_isSome h.upper_isSome
      rw [h.lower, join_map] at hlower
      rw [h.upper, join_map] at hupper
      have hsymbol := h.symbol
      exact {
        formula := rfl
        symbol := congrArg (Option.getD · []) hsymbol
        points := (takeWhile_isSome_filterMap h.points_isSome).trans h.points
        lower := hlower
        upper := hupper
        order := h.order
        grain := h.grain
        workers := h.workers
        chunkSize := h.chunkSize
        symbolic := h.symbolic
        tree := h.tree
        level := hname
        breakdown := breakdown?_of_holds h }
  · cases hread

theorem exists_wishes_of_read {words : List Text} (hread : Arguments.read words = .ok a) :
    ∃ seen w, Word.ofTexts words = .ok seen ∧ Wishes.initial.takeWords seen = .ok w ∧
      ofWishes w = .ok a := by
  obtain ⟨seen, hseen, hread⟩ := bind_eq_ok_iff.1 hread
  obtain ⟨w, hwishes, hread⟩ := bind_eq_ok_iff.1 hread
  refine ⟨seen, w, ?_, hwishes, hread⟩
  cases hwords : Word.ofTexts words with
  | error fault =>
      rw [hwords] at hseen
      cases hseen
  | ok found =>
      rw [hwords] at hseen
      cases hseen
      rfl

theorem answers_of_read (hformula : formula.head? ≠ some '-')
    (hgiven : ∀ option ∈ before ++ after, option.2 ≠ Word.separatorText)
    (hread : Arguments.read (before.map Choice.inFull ++ formula :: after.map Choice.inFull) =
      .ok a) : a.Answers formula (before ++ after) := by
  obtain ⟨seen, w, hseen, hwishes, hread⟩ := exists_wishes_of_read hread
  cases (Word.ofTexts_around hformula before after).symm.trans hseen
  obtain ⟨htaken, hholds⟩ := Wishes.holds_of_takeWords hgiven hwishes
  exact answers_of_holds hholds htaken hread

theorem read_around {first second : Wishes} (hformula : formula.head? ≠ some '-')
    (hfirst : Wishes.initial.takeAll before = .ok first) (hnone : first.formula = none)
    (hsecond : { first with formula := some formula }.takeAll after = .ok second) :
    Arguments.read (before.map Choice.inFull ++ formula :: after.map Choice.inFull) =
      ofWishes second := by
  rw [Arguments.read, Word.ofTexts_around hformula]
  show (Wishes.initial.takeWords _).bind ofWishes = _
  rw [Wishes.takeWords_around hnone hfirst, hsecond]
  rfl

/-- Settings that are refused in a command line are refused with a report. -/
theorem exists_report_of_read {words : List Text} (hread : Arguments.read words = .ok a)
    {fault : SettingFault} (hrefused : Configuration.ofNames
      ⟨some a.order, some a.grain, some a.chunkSize, some a.workers⟩ = .error fault) :
    ∃ complaint, fault.report? = some complaint := by
  obtain ⟨seen, w, -, hwishes, hread⟩ := exists_wishes_of_read hread
  have hshown := Wishes.canBeShown_initial.takeWords hwishes
  have ha : a.order = w.order ∧ a.grain = w.grain ∧ a.workers = w.workers ∧
      a.chunkSize = w.chunkSize := by
    unfold ofWishes at hread
    repeat' split at hread
    all_goals cases hread
    exact ⟨rfl, rfl, rfl, rfl⟩
  rw [Configuration.ofNames_eq] at hrefused
  refine Option.isSome_iff_exists.1 (Configuration.isSome_report?_of_ofSettings ?_ hrefused)
  obtain ⟨horder, hgrain, hworkers, hchunk⟩ := hshown
  rw [ha.1, ha.2.1, ha.2.2.1, ha.2.2.2]
  simpa using ⟨horder, hgrain, hchunk, hworkers⟩

end Arguments

end PrefixIntegral
