import Mathlib.Algebra.BigOperators.Group.List.Basic
import Mathlib.Data.Set.Image
import Mathlib.Order.Bounds.Image
import PrefixIntegral.Proofs.Canonical
import PrefixIntegral.Proofs.Visits

/-!
Trees as pictures of their formulas. One pass over a text finds its atoms, its opening parentheses
and the depth of its groups; the tree that is read from it has a node for every atom, an operator
for every parenthesis, and one level more than the groups are deep.
-/

namespace PrefixIntegral

open Grammar (IsWord IsToken IsGroup IsOperand IsOperands)

/-- A word of a text, and whether a parenthesis has been opened for it. -/
structure Atom where
  opened : Bool
  word : Text
  deriving DecidableEq, Repr

namespace Text

def isAtomic (c : Char) : Bool := !isBlank c && c != '(' && c != ')'

/-- The longest runs of characters of words, each with whether the last parenthesis was opened right
before it, as the first has one already if `opened` says so. -/
def atomsFrom (opened : Bool) : Text → List Atom
  | [] => []
  | c :: rest =>
    if isBlank c then atomsFrom opened rest
    else if c = '(' then atomsFrom true rest
    else if c = ')' then atomsFrom false rest
    else ⟨opened, c :: rest.takeWhile isAtomic⟩ :: atomsFrom false (rest.dropWhile isAtomic)
  termination_by t => t.length
  decreasing_by
    all_goals simp only [List.length_cons]
    all_goals have := (List.dropWhile_suffix (l := rest) isAtomic).length_le
    all_goals omega

/-- The words of a text from left to right. -/
def atoms (t : Text) : List Atom := t.atomsFrom false

def depths (t : Text) : Set Nat := {depth | ∃ start, start <+: t ∧ depthAfter? 0 start = some depth}

def PartsWords (t : Text) : Prop := ∀ c, t.head? = some c → isAtomic c = false

variable {gap word rest first second body : Text} {opened : Bool}

theorem isAtomic_iff {c : Char} :
    isAtomic c = true ↔ isBlank c = false ∧ c ≠ '(' ∧ c ≠ ')' := by
  simp [isAtomic, and_assoc]

theorem isAtomic_of_blank {c : Char} (h : isBlank c = true) : isAtomic c = false := by
  simp [isAtomic, h]

theorem atomsFrom_gap (hgap : isAllBlank gap) (rest : Text) :
    atomsFrom opened (gap ++ rest) = atomsFrom opened rest := by
  induction gap with
  | nil => rfl
  | cons b more ih =>
      simp only [isAllBlank, List.all_cons, Bool.and_eq_true] at hgap
      rw [List.cons_append, atomsFrom, if_pos hgap.1]
      exact ih hgap.2

theorem atomsFrom_opening (rest : Text) : atomsFrom opened ('(' :: rest) = atomsFrom true rest := by
  rw [atomsFrom, if_neg (by decide), if_pos rfl]

theorem atomsFrom_closing (rest : Text) :
    atomsFrom opened (')' :: rest) = atomsFrom false rest := by
  rw [atomsFrom, if_neg (by decide), if_neg (by decide), if_pos rfl]

theorem atomsFrom_word (hword : IsWord word) (hrest : PartsWords rest) :
    atomsFrom opened (word ++ rest) = ⟨opened, word⟩ :: atomsFrom false rest := by
  obtain ⟨hne, hchars⟩ := hword
  cases word with
  | nil => exact absurd rfl hne
  | cons c more =>
      obtain ⟨hblank, hopen, hclose⟩ := hchars c (by simp)
      have hmore : ∀ d ∈ more, isAtomic d = true := by
        intro d hd
        exact isAtomic_iff.2 (hchars d (by simp [hd]))
      have htake : rest.takeWhile isAtomic = [] := by
        cases rest with
        | nil => rfl
        | cons d others => exact List.takeWhile_cons_of_neg (by simp [hrest d rfl])
      have hdrop : rest.dropWhile isAtomic = rest := by
        cases rest with
        | nil => rfl
        | cons d others => exact List.dropWhile_cons_of_neg (by simp [hrest d rfl])
      rw [List.cons_append, atomsFrom, if_neg (by simp [hblank]), if_neg hopen, if_neg hclose,
        List.takeWhile_append_of_pos hmore, List.dropWhile_append_of_pos hmore, htake, hdrop,
        List.append_nil]

theorem partsWords_cons {c : Char} (hc : isAtomic c = false) (rest : Text) :
    PartsWords (c :: rest) := by
  intro d hd
  rwa [← Option.some.inj hd]

theorem PartsWords.of_blank (hne : gap ≠ []) (hgap : isAllBlank gap) (rest : Text) :
    PartsWords (gap ++ rest) := by
  cases gap with
  | nil => exact absurd rfl hne
  | cons b more =>
      exact partsWords_cons (isAtomic_of_blank (List.all_eq_true.1 hgap b (by simp))) _

theorem PartsWords.of_blanks (hgap : isAllBlank gap) (hrest : PartsWords rest) :
    PartsWords (gap ++ rest) := by
  by_cases hnil : gap = []
  · subst hnil
    exact hrest
  · exact .of_blank hnil hgap rest

theorem depths_append (hfirst : Balanced first) :
    (first ++ second).depths = first.depths ∪ second.depths := by
  ext depth
  rw [Set.mem_union]
  constructor
  · intro h
    obtain ⟨start, hstart, hdepth⟩ := h
    rcases List.prefix_or_prefix_of_prefix hstart (List.prefix_append first second) with h | h
    · exact .inl ⟨start, h, hdepth⟩
    · obtain ⟨more, rfl⟩ := h
      rw [depthAfter?_append, hfirst, Option.bind_some] at hdepth
      exact .inr ⟨more, (List.prefix_append_right_inj first).1 hstart, hdepth⟩
  · intro h
    rcases h with ⟨start, hstart, hdepth⟩ | ⟨start, hstart, hdepth⟩
    · exact ⟨start, hstart.trans (List.prefix_append first second), hdepth⟩
    · refine ⟨first ++ start, (List.prefix_append_right_inj first).2 hstart, ?_⟩
      rw [depthAfter?_append, hfirst]
      exact hdepth

theorem zero_mem_depths (t : Text) : 0 ∈ t.depths := ⟨[], List.nil_prefix, rfl⟩

theorem depths_of_plain (h : ∀ c ∈ first, c ≠ '(' ∧ c ≠ ')') : first.depths = {0} := by
  ext depth
  rw [Set.mem_singleton_iff]
  constructor
  · intro hmem
    obtain ⟨start, hstart, hdepth⟩ := hmem
    rw [depthAfter?_of_plain fun c hc => h c (hstart.subset hc)] at hdepth
    exact (Option.some.inj hdepth).symm
  · intro hzero
    subst hzero
    exact zero_mem_depths first

theorem depths_group (hbody : Balanced body) :
    depths ('(' :: body ++ [')']) = insert 0 (Nat.succ '' body.depths) := by
  have hopen (start : Text) : depthAfter? 0 ('(' :: start) = depthAfter? 1 start := by
    rw [depthAfter?, nextDepth?, if_pos rfl, Option.bind_some]
  ext depth
  rw [Set.mem_insert_iff, Set.mem_image]
  constructor
  · intro h
    obtain ⟨start, hstart, hdepth⟩ := h
    cases start with
    | nil => exact .inl (Option.some.inj hdepth).symm
    | cons c more =>
        obtain ⟨rfl, hmore⟩ := List.cons_prefix_cons.1 hstart
        rcases List.prefix_concat_iff.1 hmore with rfl | hinside
        · have hgroup := hbody.group
          rw [List.cons_append, Balanced, hdepth] at hgroup
          exact .inl (Option.some.inj hgroup)
        · -- What the group opens by itself is open below everything that is open inside.
          obtain ⟨others, hothers⟩ := hinside
          have hwhole := hbody
          rw [← hothers, Balanced, depthAfter?_append] at hwhole
          obtain ⟨inside, hinner, -⟩ := Option.bind_eq_some_iff.1 hwhole
          rw [hopen, ← Nat.zero_add 1, depthAfter?_add hinner 1] at hdepth
          exact .inr ⟨inside, ⟨more, ⟨others, hothers⟩, hinner⟩, Option.some.inj hdepth⟩
  · intro h
    rcases h with rfl | ⟨inside, ⟨start, hstart, hinner⟩, rfl⟩
    · exact zero_mem_depths _
    · refine ⟨'(' :: start, ?_, ?_⟩
      · exact List.cons_prefix_cons.2 ⟨rfl, hstart.trans (List.prefix_append _ _)⟩
      · rw [hopen, ← Nat.zero_add 1, depthAfter?_add hinner 1]

theorem isGreatest_depths_of_plain (h : ∀ c ∈ first, c ≠ '(' ∧ c ≠ ')') :
    IsGreatest first.depths 0 := by
  rw [depths_of_plain h]
  exact isGreatest_singleton

theorem isGreatest_depths_append {low high : Nat} (hbalanced : Balanced first)
    (hfirst : IsGreatest first.depths low) (hsecond : IsGreatest second.depths high) :
    IsGreatest (first ++ second).depths (max low high) := by
  rw [depths_append hbalanced]
  exact hfirst.union hsecond

theorem isGreatest_depths_plain_append {nesting : Nat} (h : ∀ c ∈ first, c ≠ '(' ∧ c ≠ ')')
    (hsecond : IsGreatest second.depths nesting) : IsGreatest (first ++ second).depths nesting := by
  rw [← Nat.zero_max nesting]
  exact isGreatest_depths_append (.of_plain h) (isGreatest_depths_of_plain h) hsecond

theorem isGreatest_depths_append_plain {nesting : Nat} (hbalanced : Balanced first)
    (hfirst : IsGreatest first.depths nesting) (h : ∀ c ∈ second, c ≠ '(' ∧ c ≠ ')') :
    IsGreatest (first ++ second).depths nesting := by
  rw [← Nat.max_zero nesting]
  exact isGreatest_depths_append hbalanced hfirst (isGreatest_depths_of_plain h)

theorem isGreatest_depths_group {nesting : Nat} (hbalanced : Balanced body)
    (hbody : IsGreatest body.depths nesting) :
    IsGreatest (depths ('(' :: body ++ [')'])) (nesting + 1) := by
  have hmono : Monotone Nat.succ := fun _ _ h => Nat.succ_le_succ h
  rw [depths_group hbalanced, Set.insert_eq, ← Nat.zero_max (nesting + 1)]
  exact isGreatest_singleton.union (hmono.map_isGreatest hbody)

end Text

namespace Grammar

variable {symbol inner text formula : Text} {phrase : Phrase} {operands : List Phrase}

theorem IsOperand.bottom_up (h : IsOperand symbol text phrase) (ofOne : Text → Phrase → Prop)
    (ofAll : Text → List Phrase → Prop)
    (token : ∀ {word}, IsToken symbol word → ofOne word (.leaf word))
    (group : ∀ {lead inner tail op operands}, Text.isAllBlank lead →
      IsOperands symbol inner operands → Text.isAllBlank tail → op.arity.accepts operands.length →
      ofAll inner operands →
      ofOne ('(' :: (lead ++ op.token ++ inner ++ tail) ++ [')']) (.apply op operands))
    (nil : ofAll [] [])
    (cons : ∀ {gap text rest phrase others}, gap ≠ [] → Text.isAllBlank gap →
      IsOperand symbol text phrase → IsOperands symbol rest others → ofOne text phrase →
      ofAll rest others → ofAll (gap ++ text ++ rest) (phrase :: others)) : ofOne text phrase :=
  @IsOperand.rec symbol (fun text phrase _ => ofOne text phrase)
    (fun text phrase _ => ofOne text phrase) (fun inner operands _ => ofAll inner operands)
    (fun hlead hinner htail haccepts hall => group hlead hinner htail haccepts hall)
    (fun _ h => h) (fun h => token h) nil
    (fun hne hgap hfirst hothers hone hall => cons hne hgap hfirst hothers hone hall) text phrase h

def atoms : Phrase → List Atom :=
  Term.fold (fun word => [⟨false, word⟩]) fun op operands => ⟨true, op.token⟩ :: operands.flatten

theorem atoms_apply (op : Operator) (operands : List Phrase) :
    atoms (.apply op operands) = ⟨true, op.token⟩ :: operands.flatMap atoms :=
  Term.fold_apply _ _ op operands

theorem IsOperands.partsWords (h : IsOperands symbol inner operands) {rest : Text}
    (hrest : Text.PartsWords rest) : Text.PartsWords (inner ++ rest) := by
  cases h with
  | nil => exact hrest
  | cons hne hgap _ _ =>
      rw [List.append_assoc, List.append_assoc]
      exact .of_blank hne hgap _

theorem IsOperand.atomsFrom_append (h : IsOperand symbol text phrase) :
    ∀ rest, Text.PartsWords rest →
      Text.atomsFrom false (text ++ rest) = atoms phrase ++ Text.atomsFrom false rest := by
  refine h.bottom_up
    (fun text phrase => ∀ rest, Text.PartsWords rest →
      Text.atomsFrom false (text ++ rest) = atoms phrase ++ Text.atomsFrom false rest)
    (fun inner operands => ∀ rest, Text.PartsWords rest →
      Text.atomsFrom false (inner ++ rest) = operands.flatMap atoms ++ Text.atomsFrom false rest)
    ?_ ?_ ?_ ?_
  · intro word hword rest hrest
    exact Text.atomsFrom_word hword.1 hrest
  · intro lead inner tail op operands hlead hinner htail _ ih rest _
    have hclose : Text.PartsWords (tail ++ ')' :: rest) :=
      .of_blanks htail (Text.partsWords_cons (by decide) rest)
    have htext : '(' :: (lead ++ op.token ++ inner ++ tail) ++ [')'] ++ rest =
        '(' :: (lead ++ (op.token ++ (inner ++ (tail ++ ')' :: rest)))) := by simp
    rw [htext, Text.atomsFrom_opening, Text.atomsFrom_gap hlead,
      Text.atomsFrom_word (isWord_token op) (hinner.partsWords hclose), ih _ hclose,
      Text.atomsFrom_gap htail, Text.atomsFrom_closing, atoms_apply, List.cons_append]
  · intro rest _
    rfl
  · intro gap text inner phrase others _ hgap _ hothers hfirst ih rest hrest
    rw [List.append_assoc, List.append_assoc, Text.atomsFrom_gap hgap,
      hfirst _ (hothers.partsWords hrest), ih rest hrest, List.flatMap_cons, List.append_assoc]

theorem count_opening_of_plain (h : ∀ c ∈ text, c ≠ '(' ∧ c ≠ ')') : text.count '(' = 0 :=
  List.count_eq_zero.2 fun hmem => (h _ hmem).1 rfl

theorem plain_of_isAllBlank (h : Text.isAllBlank text) : ∀ c ∈ text, c ≠ '(' ∧ c ≠ ')' :=
  fun c hc => ne_parenthesis_of_isBlank (List.all_eq_true.1 h c hc)

theorem IsWord.plain (h : IsWord text) : ∀ c ∈ text, c ≠ '(' ∧ c ≠ ')' := fun c hc => (h.2 c hc).2

theorem IsOperand.count_opening (h : IsOperand symbol text phrase) :
    text.count '(' = (atoms phrase).countP Atom.opened := by
  refine h.bottom_up (fun text phrase => text.count '(' = (atoms phrase).countP Atom.opened)
    (fun inner operands => inner.count '(' = (operands.flatMap atoms).countP Atom.opened)
    ?_ ?_ ?_ ?_
  · intro word hword
    rw [count_opening_of_plain hword.1.plain]
    rfl
  · intro lead inner tail op operands hlead _ htail _ ih
    simp only [List.cons_append, List.count_cons, List.count_append, ih, atoms_apply,
      count_opening_of_plain (plain_of_isAllBlank hlead),
      count_opening_of_plain (isWord_token op).plain,
      count_opening_of_plain (plain_of_isAllBlank htail), List.countP_cons]
    simp
  · rfl
  · intro gap text rest phrase others _ hgap _ _ hfirst ih
    rw [List.count_append, List.count_append, count_opening_of_plain (plain_of_isAllBlank hgap),
      hfirst, ih, List.flatMap_cons, List.countP_append, Nat.zero_add]

def levels : Phrase → Nat := Term.fold (fun _ => 1) fun _ => Tree.depthOver

theorem levels_apply (op : Operator) (operands : List Phrase) :
    levels (.apply op operands) = Tree.depthOver (operands.map levels) :=
  Term.fold_apply _ _ op operands

theorem levels_pos (phrase : Phrase) : 0 < levels phrase := by
  cases phrase with
  | leaf word => exact Nat.one_pos
  | apply op operands =>
      rw [levels_apply, Tree.depthOver]
      omega

theorem depthOver_levels (hne : operands ≠ []) :
    Tree.depthOver (operands.map levels) = 1 + (operands.map levels).foldl max 1 := by
  cases operands with
  | nil => exact absurd rfl hne
  | cons phrase others =>
      have hpos := levels_pos phrase
      rw [Tree.depthOver, List.map_cons, List.foldl_cons, List.foldl_cons, Nat.zero_max,
        Nat.max_eq_right hpos]

theorem IsOperand.exists_nesting (h : IsOperand symbol text phrase) :
    ∃ nesting, IsGreatest text.depths nesting ∧ levels phrase = nesting + 1 := by
  refine (h.bottom_up
    (fun text phrase => Text.Balanced text ∧
      ∃ nesting, IsGreatest text.depths nesting ∧ levels phrase = nesting + 1)
    (fun inner operands => Text.Balanced inner ∧ ∃ nesting, IsGreatest inner.depths nesting ∧
      (operands.map levels).foldl max 1 = nesting + 1) ?_ ?_ ?_ ?_).2
  · intro word hword
    exact ⟨hword.1.balanced, 0, Text.isGreatest_depths_of_plain hword.1.plain, rfl⟩
  · intro lead inner tail op operands hlead hinner htail haccepts ih
    obtain ⟨hbalanced, nesting, hgreatest, hlevels⟩ := ih
    have hne : operands ≠ [] := by
      intro hnil
      subst hnil
      revert haccepts
      cases op <;> decide
    have hbody : Text.Balanced (lead ++ op.token ++ inner ++ tail) :=
      (((balanced_of_isAllBlank hlead).append (isWord_token op).balanced).append hbalanced).append
        (balanced_of_isAllBlank htail)
    have hinside : IsGreatest (lead ++ op.token ++ inner ++ tail).depths nesting := by
      rw [List.append_assoc, List.append_assoc]
      refine Text.isGreatest_depths_plain_append (plain_of_isAllBlank hlead) ?_
      refine Text.isGreatest_depths_plain_append (isWord_token op).plain ?_
      exact Text.isGreatest_depths_append_plain hbalanced hgreatest (plain_of_isAllBlank htail)
    refine ⟨hbody.group, nesting + 1, Text.isGreatest_depths_group hbody hinside, ?_⟩
    rw [levels_apply, depthOver_levels hne, hlevels, Nat.add_comm]
  · exact ⟨Text.balanced_nil, 0, Text.isGreatest_depths_of_plain (by simp), rfl⟩
  · intro gap text rest phrase others _ hgap _ _ hfirst hothers
    obtain ⟨hbalanced, low, hlow, hlevels⟩ := hfirst
    obtain ⟨hrest, high, hhigh, hmost⟩ := hothers
    rw [List.append_assoc]
    refine ⟨(balanced_of_isAllBlank hgap).append (hbalanced.append hrest), max low high, ?_, ?_⟩
    · exact Text.isGreatest_depths_plain_append (plain_of_isAllBlank hgap)
        (Text.isGreatest_depths_append hbalanced hlow hhigh)
    · rw [List.map_cons, List.foldl_cons, Nat.max_comm 1, List.foldl_assoc, hlevels, hmost,
        Nat.add_max_add_right]

end Grammar

namespace Atom

/-- The node that a word stands for, given the symbol of the variable: an operator if a parenthesis
has been opened for it, and a leaf otherwise. The variable goes before the circle constant, and that
before literals. -/
inductive Means (symbol : Text) : Atom → Node Float → Prop
  | operator (op : Operator) (children : List Int) :
      Means symbol ⟨true, op.token⟩ (.operator op children)
  | argument : Means symbol ⟨false, symbol⟩ .argument
  | pi : Literal.piToken ≠ symbol → Means symbol ⟨false, Literal.piToken⟩ (.constant Literal.pi)
  | literal {word : Text} {value : Float} : word ≠ symbol → word ≠ Literal.piToken →
      Literal.read? word = some value → Means symbol ⟨false, word⟩ (.constant value)

def constant? (symbol : Text) (atom : Atom) : Option Float :=
  if atom.opened ∨ atom.word = symbol then none
  else if atom.word = Literal.piToken then some Literal.pi
  else Literal.read? atom.word

variable {symbol : Text} {atom : Atom} {node : Node Float} {atoms : List Atom}
  {nodes : List (Node Float)}

theorem means_wordNode {word : Text} (h : IsToken symbol word) :
    Means symbol ⟨false, word⟩ (Formula.wordNode symbol word) := by
  obtain ⟨-, htoken⟩ := h
  unfold Formula.wordNode Grammar.meaning
  split
  · subst word
    exact .argument
  · rename_i hsymbol
    split
    · subst word
      exact .pi hsymbol
    · rename_i hpi
      have hpattern := (htoken.resolve_left hsymbol).resolve_left hpi
      obtain ⟨numeral, hnumeral⟩ := Option.isSome_iff_exists.1 (Literal.numeral?_isSome.2 hpattern)
      have hread : Literal.read? word = some numeral.toFloat := by
        rw [Literal.read?, hnumeral, Option.map_some]
      rw [hread]
      exact .literal hsymbol hpi hread

theorem Means.constant?_eq (h : Means symbol atom node) :
    atom.constant? symbol = if node.kind = .constant then some node.value else none := by
  cases h with
  | operator op children => rfl
  | argument => exact if_pos (.inr rfl)
  | pi hsymbol =>
      rw [constant?, if_neg (by simpa using hsymbol), if_pos rfl]
      rfl
  | literal hsymbol hpi hread =>
      rw [constant?, if_neg (by simpa using hsymbol), if_neg hpi, hread]
      rfl

theorem Means.argument_iff (h : Means symbol atom node) :
    node.kind = .argument ↔ atom = ⟨false, symbol⟩ := by
  cases h with
  | operator op children => exact iff_of_false nofun (fun h => nomatch congrArg Atom.opened h)
  | argument => exact iff_of_true rfl rfl
  | pi hsymbol => exact iff_of_false nofun (fun h => hsymbol (congrArg Atom.word h))
  | literal hsymbol _ _ => exact iff_of_false nofun (fun h => hsymbol (congrArg Atom.word h))

theorem Means.sum_operator (h : Means symbol atom node) :
    (Operator.all.map fun op => if node.kind = .operator op then 1 else 0).sum =
      if atom.opened then 1 else 0 := by
  have hkind : atom.opened = true ∧ (∃ op, node.kind = .operator op) ∨
      atom.opened = false ∧ ∀ op, node.kind ≠ .operator op := by
    cases h with
    | operator op children => exact .inl ⟨rfl, op, rfl⟩
    | argument => exact .inr ⟨rfl, nofun⟩
    | pi => exact .inr ⟨rfl, nofun⟩
    | literal => exact .inr ⟨rfl, nofun⟩
  rcases hkind with ⟨hopened, op, hop⟩ | ⟨hopened, hleaf⟩
  · rw [hop, hopened]
    cases op <;> rfl
  · simp [hopened, hleaf]

end Atom

section Counts

open Atom (Means)

variable {symbol : Text} {atoms : List Atom} {nodes : List (Node Float)}

theorem sum_countP_operator (h : List.Forall₂ (Means symbol) atoms nodes) :
    (Operator.all.map fun op => nodes.countP (·.kind = .operator op)).sum =
      atoms.countP Atom.opened := by
  induction h with
  | nil => rfl
  | cons hfirst _ ih =>
      simp only [List.countP_cons, decide_eq_true_eq, List.sum_map_add, ih, hfirst.sum_operator]

theorem filterMap_constant? (h : List.Forall₂ (Means symbol) atoms nodes) :
    atoms.filterMap (Atom.constant? symbol) =
      (nodes.filter (·.kind = .constant)).map Node.value := by
  induction h with
  | nil => rfl
  | @cons atom node atoms nodes hfirst _ ih =>
      rw [List.filterMap_cons, hfirst.constant?_eq, List.filter_cons, ih]
      by_cases hkind : node.kind = .constant
      · simp [hkind]
      · simp [hkind]

theorem any_argument_iff (h : List.Forall₂ (Means symbol) atoms nodes) :
    nodes.any (·.kind = .argument) ↔ ⟨false, symbol⟩ ∈ atoms := by
  induction h with
  | nil => simp
  | cons hfirst _ ih =>
      rw [List.any_cons, Bool.or_eq_true, ih, decide_eq_true_iff, hfirst.argument_iff,
        List.mem_cons, eq_comm]

end Counts

theorem sum_filterMap_counts {β : Type} (count : β → Nat) (items : List β) :
    ((items.filterMap fun item =>
      if count item = 0 then none else some (item, count item)).map Prod.snd).sum =
      (items.map count).sum := by
  induction items with
  | nil => rfl
  | cons item rest ih =>
      rw [List.map_cons, List.sum_cons, ← ih, List.filterMap_cons]
      by_cases hcount : count item = 0
      · simp [hcount]
      · simp [hcount]

theorem Tree.sum_operatorCounts {α : Type} [Scalar α] (t : Tree α) :
    (t.operatorCounts.map Prod.snd).sum =
      (Operator.all.map fun op => t.nodes.toList.countP (·.kind = .operator op)).sum :=
  sum_filterMap_counts _ Operator.all

namespace Grammar

variable {symbol text formula : Text} {phrase : Phrase}

theorem IsOperand.means (h : IsOperand symbol text phrase) : ∀ base,
    List.Forall₂ (Atom.Means symbol) (atoms phrase)
      (phrase.nodes (Formula.wordNode symbol) base) := by
  refine h.bottom_up
    (fun _ phrase => ∀ base, List.Forall₂ (Atom.Means symbol) (atoms phrase)
      (phrase.nodes (Formula.wordNode symbol) base))
    (fun _ operands => ∀ base, List.Forall₂ (Atom.Means symbol) (operands.flatMap atoms)
      (Term.nodesOfAll (Formula.wordNode symbol) base operands)) ?_ ?_ ?_ ?_
  · intro word hword base
    exact .cons (Atom.means_wordNode hword) .nil
  · intro lead inner tail op operands _ _ _ _ ih base
    rw [atoms_apply]
    exact .cons (.operator op _) (ih (base + 1))
  · intro base
    exact .nil
  · intro gap text rest phrase others _ _ _ _ hfirst hothers base
    rw [List.flatMap_cons, Term.nodesOfAll]
    exact List.rel_append (hfirst base) (hothers (base + phrase.size))

theorem IsFormula.exists_operand (h : IsFormula symbol formula phrase) :
    ∃ text, IsOperand symbol text phrase ∧ formula.atoms = atoms phrase ∧
      formula.count '(' = text.count '(' ∧ ∀ nesting, IsGreatest text.depths nesting →
        IsGreatest formula.depths nesting := by
  obtain ⟨before, text, after, hbefore, hgroup, hafter, rfl⟩ := h
  have hoperand : IsOperand symbol text phrase := .group hgroup
  have hparts : Text.PartsWords after := by
    simpa using @Text.PartsWords.of_blanks after [] hafter nofun
  refine ⟨text, hoperand, ?_, ?_, ?_⟩
  · have hnone := @Text.atomsFrom_gap after false hafter []
    rw [List.append_nil, Text.atomsFrom] at hnone
    rw [Text.atoms, List.append_assoc, Text.atomsFrom_gap hbefore,
      hoperand.atomsFrom_append after hparts, hnone, List.append_nil]
  · rw [List.count_append, List.count_append, count_opening_of_plain (plain_of_isAllBlank hbefore),
      count_opening_of_plain (plain_of_isAllBlank hafter), Nat.zero_add, Nat.add_zero]
  · intro nesting hgreatest
    rw [List.append_assoc]
    refine Text.isGreatest_depths_plain_append (plain_of_isAllBlank hbefore) ?_
    exact Text.isGreatest_depths_append_plain hoperand.balanced hgreatest
      (plain_of_isAllBlank hafter)

theorem levels_map {β : Type} (f : Text → β) (phrase : Phrase) : levels phrase =
    (Term.map f phrase).fold (fun _ => 1) fun _ => Tree.depthOver := by
  rw [Term.fold_map]
  rfl

end Grammar

namespace Formula

/-- The tree that is read from a formula has one node for every word of it, in the order of the
text, and that node is what the word stands for. So its operators are as many as the opening
parentheses, its constants are those of the text, and it has the variable if a word is the symbol
and no operator. Its depth is one more than the greatest depth of open groups. -/
theorem read_mirrors_text {formula symbol : Text} {tree : Tree Float}
    (h : read formula symbol = .ok tree) :
    List.Forall₂ (Atom.Means symbol) formula.atoms tree.nodes.toList ∧
    tree.size = formula.atoms.length ∧
    (tree.operatorCounts.map Prod.snd).sum = formula.count '(' ∧
    tree.constants = formula.atoms.filterMap (Atom.constant? symbol) ∧
    (tree.usesVariable ↔ ⟨false, symbol⟩ ∈ formula.atoms) ∧
    ∃ nesting, IsGreatest formula.depths nesting ∧ tree.depth = nesting + 1 ∧
      tree.nodes.sweepDepths 0 = .ok (nesting + 1) := by
  obtain ⟨phrase, hformula, -, -, hnodes⟩ := read_iff.1 h
  obtain ⟨text, hoperand, hatoms, hcount, hdepths⟩ := hformula.exists_operand
  have hmeans : List.Forall₂ (Atom.Means symbol) formula.atoms tree.nodes.toList := by
    rw [hatoms, hnodes]
    exact hoperand.means 0
  have hsize : tree.size = formula.atoms.length := by
    rw [hmeans.length_eq, Array.length_toList, Tree.size]
  have hsum : (tree.operatorCounts.map Prod.snd).sum = formula.count '(' := by
    rw [tree.sum_operatorCounts, sum_countP_operator hmeans, hatoms, hcount, hoperand.count_opening]
  have hplain : tree.nodes.toList.map Node.plain =
      Term.nodes Leaf.node 0 (Term.map (Grammar.meaning symbol) phrase) := by
    rw [hnodes, Grammar.map_plain_nodes]
  have hdepth : tree.depth = Grammar.levels phrase := by
    rw [Grammar.levels_map (Grammar.meaning symbol)]
    exact Tree.fold_eq hplain (fun _ _ _ _ => rfl) fun _ _ _ _ _ _ => rfl
  obtain ⟨nesting, hgreatest, hlevels⟩ := hoperand.exists_nesting
  refine ⟨hmeans, hsize, hsum, (filterMap_constant? hmeans).symm, any_argument_iff hmeans, nesting,
    hdepths nesting hgreatest, hdepth.trans hlevels, ?_⟩
  rw [tree.sweepDepths_eq tree.size_pos, ← Tree.depth, hdepth, hlevels]

theorem atoms_sine : Text.atoms "( + (sin sin) (* -2\tpi))".toList =
    [⟨true, "+".toList⟩, ⟨true, "sin".toList⟩, ⟨false, "sin".toList⟩, ⟨true, "*".toList⟩,
      ⟨false, "-2".toList⟩, ⟨false, "pi".toList⟩] := by with_unfolding_all rfl

theorem readNodes_sine : readNodes "( + (sin sin) (* -2\tpi))".toList "sin".toList =
    .ok [.operator .add [1, 3], .operator .sin [2], .argument, .operator .mul [4, 5],
      .constant (-2), .constant Literal.pi] := by decide +kernel

/-- A formula whose variable has the name of one of its operators. -/
theorem read_mirrors_sine : ∃ tree,
    read "( + (sin sin) (* -2\tpi))".toList "sin".toList = .ok tree ∧ tree.size = 6 ∧
      (tree.operatorCounts.map Prod.snd).sum = 3 ∧ tree.constants = [-2, Literal.pi] ∧
      tree.usesVariable = true ∧
      ∃ nesting, IsGreatest (Text.depths "( + (sin sin) (* -2\tpi))".toList) nesting ∧
        tree.depth = nesting + 1 := by
  obtain ⟨tree, -, hread⟩ := exists_ofNodes readNodes_sine
  obtain ⟨-, hsize, hsum, hconstants, hvariable, nesting, hgreatest, hdepth, -⟩ :=
    read_mirrors_text hread
  rw [atoms_sine] at hsize hconstants hvariable
  have hvalues : tree.constants = [-2, Literal.pi] := by
    rw [hconstants]
    decide +kernel
  exact ⟨tree, hread, hsize, hsum.trans (by decide), hvalues, hvariable.2 (by decide), nesting,
    hgreatest, hdepth⟩

end Formula

end PrefixIntegral
