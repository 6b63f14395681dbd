import Mathlib.Data.Int.ConditionallyCompleteOrder
import Mathlib.Data.Int.Interval
import Mathlib.Order.ConditionallyCompleteLattice.Basic
import PrefixIntegral.Proofs.Outcome
import PrefixIntegral.Proofs.Preorder

/-!
The checks of an arena with their walks as they are made: one that marks what it meets and passes
over what is marked, and one in pre-order that keeps no record and has no bound. The checks before
them bring both to an end, and so every arena is judged. What is accepted is the layout of a term,
and of one term only.
-/

namespace PrefixIntegral

open Term (nodes nodesOfAll starts)

variable {α β : Type}

namespace Arena

/-- The walk in pre-order from pending places, which meets the places of an order and then ends. It
would go on for ever where an operand leads back to its operator. -/
inductive Visits (arena : Arena α) : List Int → List Int → Prop
  | done : Visits arena [] []
  | visit {place : Int} {pending order : List Int} :
      Visits arena (arena.childrenAt place ++ pending) order →
        Visits arena (place :: pending) (place :: order)

/-- The walk that marks the places it meets, from those marked before to those marked in the end.
The last operand of a node is met first. -/
inductive Marks (arena : Arena α) : Finset Int → List Int → Finset Int → Prop
  | done {seen : Finset Int} : Marks arena seen [] seen
  | again {seen marked : Finset Int} {place : Int} {pending : List Int} : place ∈ seen →
      Marks arena seen pending marked → Marks arena seen (place :: pending) marked
  | first {seen marked : Finset Int} {place : Int} {pending : List Int} : place ∉ seen →
      Marks arena (insert place seen) ((arena.childrenAt place).reverse ++ pending) marked →
        Marks arena seen (place :: pending) marked

def comparePlaces (position : Nat) : List Int → Except StructureFault Unit
  | [] => .ok ()
  | place :: rest =>
    if place ≠ position then .error (.outOfOrder place position)
    else comparePlaces (position + 1) rest

/-- The checks that need no walk: of the root, of every node with its operands, and of how often
every place is an operand. -/
def checkPlaces [Scalar α] (arena : Arena α) (root : Int) : Except StructureFault Unit :=
  if arena.size = 0 then .error .noNodes
  else if root < 0 ∨ (arena.size : Int) ≤ root then .error (.rootOutOfRange root)
  else do
    checkNodes arena.size 0 arena.toList
    checkAll (arena.checkReferences root.toNat) (List.range arena.size)

/-- How an arena is judged when the walks are made as they come. A walk is made only after all that
comes before it has passed, and there is a judgement only if it ends. -/
inductive Judges [Scalar α] (arena : Arena α) (root : Int) : Except StructureFault Unit → Prop
  | refused {fault : StructureFault} : arena.checkPlaces root = .error fault →
      Judges arena root (.error fault)
  | unreachable {marked : Finset Int} : arena.checkPlaces root = .ok () →
      Marks arena ∅ [root] marked → marked.card ≠ arena.size →
        Judges arena root (.error (.unreachable (arena.size - marked.card)))
  | compared {marked : Finset Int} {order : List Int} : arena.checkPlaces root = .ok () →
      Marks arena ∅ [root] marked → marked.card = arena.size → Visits arena [root] order →
        Judges arena root (comparePlaces 0 order)

def Grows (arena : Arena α) : Prop :=
  ∀ place, ∀ child ∈ arena.childrenAt place, place < child ∧ child ∈ Finset.Ico 0 (arena.size : Int)

variable {arena : Arena α}

theorem grows_of_checkNodes [Scalar α] (h : checkNodes arena.size 0 arena.toList = .ok ()) :
    arena.Grows := by
  intro place child hmem
  rw [childrenAt] at hmem
  split at hmem
  · cases hmem
  · obtain ⟨place, rfl⟩ := Int.eq_ofNat_of_zero_le (Int.not_lt.1 ‹_›)
    rw [Int.toNat_natCast] at hmem
    cases hnode : arena[place]? with
    | none => simp [hnode] at hmem
    | some node =>
        obtain ⟨hin, hget⟩ := Array.getElem?_eq_some_iff.1 hnode
        have hlt := checkNodes_ok h (i := place) (by simpa using hin) child
          (by simpa [hnode, hget] using hmem)
        rw [Finset.mem_Ico]
        omega

/-! ## The walk in pre-order -/

theorem Visits.append (places : List Int) {pending order : List Int}
    (h : ∀ place ∈ places, ∀ {pending order}, Visits arena pending order →
      ∃ longer, Visits arena (place :: pending) longer) (hpending : Visits arena pending order) :
    ∃ longer, Visits arena (places ++ pending) longer := by
  induction places with
  | nil => exact ⟨order, hpending⟩
  | cons place rest ih =>
      obtain ⟨longer, hlonger⟩ := ih fun other hmem => h other (by simp [hmem])
      exact h place (by simp) hlonger

/-- A walk from a place of the arena ends, since every operand leaves fewer places after it. -/
theorem Visits.cons (hgrows : arena.Grows) {place : Int} (hplace : place < arena.size)
    {pending order : List Int} (hpending : Visits arena pending order) :
    ∃ longer, Visits arena (place :: pending) longer := by
  induction hafter : (arena.size - place).toNat using Nat.strongRecOn
    generalizing place pending order with
  | _ after ih =>
      obtain ⟨longer, hlonger⟩ := Visits.append (arena.childrenAt place)
        (fun child hmem _ _ hrest => by
          obtain ⟨hlt, hin⟩ := hgrows place child hmem
          exact ih _ (by omega) (Finset.mem_Ico.1 hin).2 hrest rfl) hpending
      exact ⟨place :: longer, .visit hlonger⟩

theorem Visits.comparePlaces_eq (hgrows : arena.Grows) {pending order : List Int}
    (h : Visits arena pending order) (hpending : ∀ place ∈ pending, place < arena.size)
    (position : Nat) : comparePlaces position order = arena.checkOrder position pending := by
  induction h generalizing position with
  | done => rw [checkOrder, comparePlaces]
  | @visit place pending order _ ih =>
      rw [checkOrder, comparePlaces]
      split
      · rfl
      · have hplace := hpending place (by simp)
        rw [if_pos (by omega)]
        refine ih ?_ (position + 1)
        intro other hmem
        rcases List.mem_append.1 hmem with hmem | hmem
        · exact (Finset.mem_Ico.1 (hgrows place other hmem).2).2
        · exact hpending other (by simp [hmem])

/-! ## The walk that marks -/

/-- Marking ends, since each place is marked once. -/
theorem exists_marks (hgrows : arena.Grows) (seen : Finset Int) (pending : List Int)
    (hpending : ∀ place ∈ pending, place ∈ Finset.Ico 0 (arena.size : Int)) :
    ∃ marked, Marks arena seen pending marked := by
  induction hleft : (Finset.Ico 0 (arena.size : Int) \ seen).card using Nat.strongRecOn
    generalizing seen pending with
  | _ left ih =>
      induction pending with
      | nil => exact ⟨seen, .done⟩
      | cons place rest hrest =>
          obtain ⟨hplace, hothers⟩ := List.forall_mem_cons.1 hpending
          by_cases hseen : place ∈ seen
          · obtain ⟨marked, hmarked⟩ := hrest hothers
            exact ⟨marked, .again hseen hmarked⟩
          · have hfewer : (Finset.Ico 0 (arena.size : Int) \ insert place seen).card < left := by
              rw [← hleft, Finset.sdiff_insert]
              exact Finset.card_erase_lt_of_mem (by simp only [Finset.mem_sdiff, hplace, hseen,
                not_false_eq_true, and_self])
            obtain ⟨marked, hmarked⟩ := ih _ hfewer (insert place seen)
              ((arena.childrenAt place).reverse ++ rest) (fun other hmem => by
                rcases List.mem_append.1 hmem with hmem | hmem
                · exact (hgrows place other (List.mem_reverse.1 hmem)).2
                · exact hothers other hmem) rfl
            exact ⟨marked, .first hseen hmarked⟩

theorem Marks.subset {seen marked : Finset Int} {pending : List Int}
    (h : Marks arena seen pending marked) : seen ⊆ marked := by
  induction h with
  | done => exact Finset.Subset.refl _
  | again _ _ ih => exact ih
  | first _ _ ih => exact (Finset.subset_insert _ _).trans ih

theorem Marks.mem_of_pending {seen marked : Finset Int} {pending : List Int}
    (h : Marks arena seen pending marked) : ∀ place ∈ pending, place ∈ marked := by
  induction h with
  | done => simp
  | again hseen hmarks ih => exact List.forall_mem_cons.2 ⟨hmarks.subset hseen, ih⟩
  | first hseen hmarks ih =>
      exact List.forall_mem_cons.2 ⟨hmarks.subset (Finset.mem_insert_self _ _),
        fun other hmem => ih other (List.mem_append_right _ hmem)⟩

theorem Marks.operands {seen marked : Finset Int} {pending : List Int}
    (h : Marks arena seen pending marked) {place : Int} (hmem : place ∈ marked) :
    place ∈ seen ∨ ∀ child ∈ arena.childrenAt place, child ∈ marked := by
  induction h with
  | done => exact .inl hmem
  | again _ _ ih => exact ih hmem
  | @first seen marked found pending hseen hmarks ih =>
      rcases ih hmem with hfound | hchildren
      · rcases Finset.mem_insert.1 hfound with rfl | hfound
        · exact .inr fun child hchild =>
            hmarks.mem_of_pending child (List.mem_append_left _ (List.mem_reverse.2 hchild))
        · exact .inl hfound
      · exact .inr hchildren

theorem Marks.inside (hgrows : arena.Grows) {seen marked : Finset Int} {pending : List Int}
    (h : Marks arena seen pending marked) (hseen : seen ⊆ Finset.Ico 0 (arena.size : Int))
    (hpending : ∀ place ∈ pending, place ∈ Finset.Ico 0 (arena.size : Int)) :
    marked ⊆ Finset.Ico 0 (arena.size : Int) := by
  induction h with
  | done => exact hseen
  | again _ _ ih => exact ih hseen fun other hmem => hpending other (by simp [hmem])
  | @first seen marked place pending _ _ ih =>
      obtain ⟨hplace, hothers⟩ := List.forall_mem_cons.1 hpending
      refine ih (Finset.insert_subset hplace hseen) ?_
      intro other hmem
      rcases List.mem_append.1 hmem with hmem | hmem
      · exact (hgrows place other (List.mem_reverse.1 hmem)).2
      · exact hothers other hmem

theorem Marks.card_eq (hgrows : arena.Grows) (hpos : 0 < (arena.size : Int))
    (hparent : ∀ place, 0 < place → place < arena.size →
      ∃ parent < place, (place : Int) ∈ arena.childrenAt parent) {marked : Finset Int}
    (h : Marks arena ∅ [0] marked) : marked.card = arena.size := by
  have hall : ∀ place, place < arena.size → (place : Int) ∈ marked := by
    intro place
    induction place using Nat.strongRecOn with
    | ind place ih =>
        intro hplace
        rcases Nat.eq_zero_or_pos place with rfl | hzero
        · exact h.mem_of_pending 0 (by simp)
        · obtain ⟨parent, hlt, hmem⟩ := hparent place hzero hplace
          have hmarked := ih parent hlt (by omega)
          exact (h.operands hmarked).resolve_left (by simp) place hmem
  have hmarked : marked = Finset.Ico 0 (arena.size : Int) := by
    refine Finset.Subset.antisymm (h.inside hgrows (by simp) (by simpa using hpos)) ?_
    intro place hmem
    obtain ⟨hzero, hlt⟩ := Finset.mem_Ico.1 hmem
    obtain ⟨place, rfl⟩ := Int.eq_ofNat_of_zero_le hzero
    exact hall place (by omega)
  rw [hmarked, Int.card_Ico, Int.sub_zero, Int.toNat_natCast]

/-! ## Judgements -/

variable [Scalar α] {root : Int}

theorem validate_eq (arena : Arena α) (root : Int) : arena.validate root =
    (arena.checkPlaces root).bind fun _ =>
      (arena.checkReachable root.toNat).bind fun _ => arena.checkOrder 0 [root] := by
  unfold validate checkPlaces
  split
  · rfl
  · split
    · rfl
    · cases checkNodes arena.size 0 arena.toList with
      | error fault => rfl
      | ok u => rfl

theorem checkPlaces_ok (h : arena.checkPlaces root = .ok ()) :
    (0 ≤ root ∧ root < arena.size) ∧ checkNodes arena.size 0 arena.toList = .ok () ∧
      ∀ place < arena.size, arena.checkReferences root.toNat place = .ok () := by
  unfold checkPlaces at h
  split at h
  · cases h
  · split at h
    · cases h
    · obtain ⟨u, hnodes, hrefs⟩ := bind_eq_ok_iff.1 h
      exact ⟨by omega, hnodes, fun place hplace =>
        checkAll_ok hrefs place (List.mem_range.2 hplace)⟩

theorem root_of_checkPlaces (h : arena.checkPlaces root = .ok ()) : root = 0 := by
  obtain ⟨hroot, hnodes, hrefs⟩ := checkPlaces_ok h
  have hnone : arena.references 0 = 0 := by
    refine Nat.eq_zero_of_not_pos fun hpos => ?_
    obtain ⟨parent, hlt, -⟩ := parent_of_references hnodes hpos
    exact Nat.not_lt_zero parent hlt
  have hfirst := hrefs 0 (by omega)
  simp only [checkReferences, hnone] at hfirst
  split at hfirst
  · omega
  · simp at hfirst

theorem parent_of_checkPlaces (h : arena.checkPlaces 0 = .ok ()) (place : Nat) (hzero : 0 < place)
    (hplace : place < arena.size) :
    ∃ parent < place, (place : Int) ∈ arena.childrenAt parent := by
  obtain ⟨-, hnodes, hrefs⟩ := checkPlaces_ok h
  have hcount := checkReferences_zero_iff.1 (hrefs place hplace)
  rw [if_neg (by omega)] at hcount
  exact parent_of_references hnodes (by omega)

theorem validate_of_checkPlaces (h : arena.checkPlaces 0 = .ok ()) :
    arena.validate 0 = arena.checkOrder 0 [0] := by
  have hreach : arena.checkReachable 0 = .ok () := by
    simp only [checkReachable, reachable_of_parent (parent_of_checkPlaces h), if_true]
  rw [validate_eq, h]
  show (arena.checkReachable 0).bind _ = _
  rw [hreach]
  rfl

/-- An arena is judged, and as the checks say that stop a walk at the first place out of order. -/
theorem judges_iff (arena : Arena α) (root : Int) (result : Except StructureFault Unit) :
    arena.Judges root result ↔ result = arena.validate root := by
  cases hplaces : arena.checkPlaces root with
  | error fault =>
      have hvalidate : arena.validate root = .error fault := by
        rw [validate_eq, hplaces]
        rfl
      rw [hvalidate]
      constructor
      · intro h
        cases h with
        | refused hfault => exact congrArg _ (Except.error.inj (hfault.symm.trans hplaces))
        | unreachable hok => cases hok.symm.trans hplaces
        | compared hok => cases hok.symm.trans hplaces
      · rintro rfl
        exact .refused hplaces
  | ok u =>
      obtain rfl := root_of_checkPlaces hplaces
      obtain ⟨⟨-, hpos⟩, hnodes, -⟩ := checkPlaces_ok hplaces
      have hgrows := grows_of_checkNodes hnodes
      have hcard : ∀ {marked}, Marks arena ∅ [0] marked → marked.card = arena.size :=
        fun hmarks => hmarks.card_eq hgrows hpos (parent_of_checkPlaces hplaces)
      have horder : ∀ {order}, Visits arena [0] order →
          comparePlaces 0 order = arena.checkOrder 0 [0] :=
        fun hvisits => hvisits.comparePlaces_eq hgrows (by simpa using hpos) 0
      rw [validate_of_checkPlaces hplaces]
      constructor
      · intro h
        cases h with
        | refused hfault => cases hfault.symm.trans hplaces
        | unreachable _ hmarks hne => exact absurd (hcard hmarks) hne
        | compared _ _ _ hvisits => exact horder hvisits
      · rintro rfl
        obtain ⟨marked, hmarks⟩ := exists_marks hgrows ∅ [0] (by simpa using hpos)
        obtain ⟨order, hvisits⟩ := Visits.cons hgrows hpos Visits.done
        rw [← horder hvisits]
        exact .compared hplaces hmarks (hcard hmarks) hvisits

end Arena

/-! ## Layouts of one term -/

namespace Term

variable [Scalar α] {leafNode : β → Node α}

theorem eq_of_nodesOfAll_append {operands others : List (Term β)} {base : Nat}
    {rest rest' : List (Node α)}
    (h : ∀ t ∈ operands, ∀ {u : Term β} {base : Nat} {rest rest' : List (Node α)},
      nodes leafNode base t ++ rest = nodes leafNode base u ++ rest' → t = u ∧ rest = rest')
    (hlength : operands.length = others.length)
    (hnodes : nodesOfAll leafNode base operands ++ rest =
      nodesOfAll leafNode base others ++ rest') : operands = others ∧ rest = rest' := by
  induction operands generalizing others base with
  | nil =>
      obtain rfl := List.length_eq_zero_iff.1 hlength.symm
      exact ⟨rfl, hnodes⟩
  | cons t more ih =>
      cases others with
      | nil => cases hlength
      | cons u others =>
          rw [nodesOfAll, nodesOfAll, List.append_assoc, List.append_assoc] at hnodes
          obtain ⟨rfl, htail⟩ := h t (by simp) hnodes
          obtain ⟨rfl, hrest⟩ := ih (fun v hv => h v (by simp [hv])) (Nat.succ.inj hlength) htail
          exact ⟨rfl, hrest⟩

theorem eq_of_nodes_append (hleaf : Function.Injective leafNode)
    (hop : ∀ content op children, leafNode content ≠ .operator op children) {t u : Term β}
    {base : Nat} {rest rest' : List (Node α)}
    (h : nodes leafNode base t ++ rest = nodes leafNode base u ++ rest') :
    t = u ∧ rest = rest' := by
  induction t generalizing u base rest rest' with
  | leaf content =>
      cases u with
      | leaf other =>
          obtain ⟨hnode, hrest⟩ := List.cons.inj h
          exact ⟨congrArg _ (hleaf hnode), hrest⟩
      | apply op others => exact absurd (List.cons.inj h).1 (hop content op _)
  | apply op operands ih =>
      cases u with
      | leaf other => exact absurd (List.cons.inj h).1.symm (hop other op _)
      | apply op' others =>
          obtain ⟨hnode, hrest⟩ := List.cons.inj h
          obtain ⟨hkind, -, hstarts⟩ := Node.mk.inj hnode
          obtain rfl := Kind.operator.inj hkind
          have hlength := congrArg List.length hstarts
          rw [length_starts, length_starts] at hlength
          obtain ⟨rfl, htail⟩ := eq_of_nodesOfAll_append ih hlength hrest
          exact ⟨rfl, htail⟩

end Term

theorem Leaf.node_injective [Scalar α] : Function.Injective (Leaf.node (α := α)) := by
  intro first second h
  cases first <;> cases second <;> cases h <;> rfl

theorem Leaf.node_ne_operator [Scalar α] (leaf : Leaf α) (op : Operator) (children : List Int) :
    leaf.node ≠ .operator op children := by
  cases leaf <;> exact nofun

namespace Arena

variable [Scalar α]

/-! ## Values that mean nothing -/

theorem checkNode_plain (place : Nat) (node : Node α) :
    checkNode place node.plain = checkNode place node := by
  unfold checkNode
  rw [Node.kind_plain, Node.children_plain]
  cases hkind : node.kind with
  | constant => rw [Node.plain_of_constant hkind]
  | argument | operator op | unknown number => rfl

theorem checkNodes_plain (size place : Nat) (nodes : List (Node α)) :
    checkNodes size place (nodes.map Node.plain) = checkNodes size place nodes := by
  induction nodes generalizing place with
  | nil => rfl
  | cons node rest ih => rw [List.map_cons, checkNodes, checkNodes, checkNode_plain, ih,
      Node.children_plain]

theorem references_plain (arena : Arena α) (place : Nat) :
    references (arena.map Node.plain) place = arena.references place := by
  simp only [references, Array.toList_map, List.flatMap_map, Node.children_plain]

theorem childrenAt_plain (arena : Arena α) (place : Int) :
    childrenAt (arena.map Node.plain) place = arena.childrenAt place := by
  simp only [childrenAt, Array.getElem?_map, Option.map_map, Function.comp_def, Node.children_plain]

theorem checkPlaces_plain (arena : Arena α) (root : Int) :
    checkPlaces (arena.map Node.plain) root = arena.checkPlaces root := by
  have hrefs : checkReferences (arena.map Node.plain) = arena.checkReferences := by
    funext root place
    simp only [checkReferences, references_plain]
  simp only [checkPlaces, Array.size_map, Array.toList_map, checkNodes_plain, hrefs]

theorem checkOrder_plain (arena : Arena α) (position : Nat) (pending : List Int) :
    checkOrder (arena.map Node.plain) position pending = arena.checkOrder position pending := by
  fun_induction checkOrder arena position pending with
  | case1 position => rw [checkOrder]
  | case2 position place pending hplace => rw [checkOrder, if_pos hplace]
  | case3 position place pending hplace hlt ih =>
      rw [checkOrder, if_neg hplace, Array.size_map, if_pos hlt, childrenAt_plain, ih]
  | case4 position place pending hplace hout =>
      rw [checkOrder, if_neg hplace, Array.size_map, if_neg hout]

theorem validate_zero_iff {arena : Arena α} : arena.validate 0 = .ok () ↔
    arena.checkPlaces 0 = .ok () ∧ arena.checkOrder 0 [0] = .ok () := by
  constructor
  · intro h
    have hplaces : arena.checkPlaces 0 = .ok () := by
      rw [validate_eq] at h
      obtain ⟨u, hplaces, -⟩ := bind_eq_ok_iff.1 h
      exact hplaces
    exact ⟨hplaces, validate_of_checkPlaces hplaces ▸ h⟩
  · rintro ⟨hplaces, horder⟩
    exact (validate_of_checkPlaces hplaces).trans horder

theorem validate_plain_iff {arena : Arena α} :
    validate (arena.map Node.plain) 0 = .ok () ↔ arena.validate 0 = .ok () := by
  rw [validate_zero_iff, validate_zero_iff, checkPlaces_plain, checkOrder_plain]

/-! ## What is accepted -/

/-- The arena lays out a term in pre-order, every operator with the places at which its operands
start, and whatever value a node has that is no constant. -/
def LaysOut (arena : Arena α) (t : Term (Leaf α)) : Prop :=
  t.Fits Leaf.IsNumber ∧ arena.toList.map Node.plain = nodes Leaf.node 0 t

theorem laysOut_unique {arena : Arena α} {t u : Term (Leaf α)} (ht : arena.LaysOut t)
    (hu : arena.LaysOut u) : t = u := by
  have hnodes : nodes Leaf.node 0 t ++ [] = nodes Leaf.node 0 u ++ [] := by
    rw [← ht.2, ← hu.2]
  exact (Term.eq_of_nodes_append Leaf.node_injective Leaf.node_ne_operator hnodes).1

theorem validate_of_laysOut {arena : Arena α} {t : Term (Leaf α)} (h : arena.LaysOut t) :
    arena.validate 0 = .ok () :=
  validate_plain_iff.1 (validate_nodes leavesPass_leaf h.1 (Array.toList_map.trans h.2))

theorem root_of_validate {arena : Arena α} {root : Int} (h : arena.validate root = .ok ()) :
    root = 0 := by
  obtain ⟨-, -, -, -, horder⟩ := validate_iff.1 h
  rw [checkOrder] at horder
  split at horder
  · cases horder
  · simpa using Decidable.not_not.1 ‹_›

/-- Every arena is judged at every root, in one way. It is accepted exactly if the root is the first
place and the arena lays out a term, which is then the only one, and refused with a fault in every
other case. -/
theorem validate_accepts_layouts (arena : Arena α) (root : Int) :
    (∀ result, arena.Judges root result ↔ result = arena.validate root) ∧
    (arena.validate root = .ok () ↔ root = 0 ∧ ∃! t, arena.LaysOut t) ∧
    ((∃ fault, arena.validate root = .error fault) ↔ ¬(root = 0 ∧ ∃ t, arena.LaysOut t)) := by
  have haccepts : arena.validate root = .ok () ↔ root = 0 ∧ ∃ t, arena.LaysOut t := by
    constructor
    · intro h
      obtain rfl := root_of_validate h
      obtain ⟨t, ht⟩ := exists_term_of_validate h
      exact ⟨rfl, t, ht⟩
    · rintro ⟨rfl, t, ht⟩
      exact validate_of_laysOut ht
  have hunique : (∃ t, arena.LaysOut t) ↔ ∃! t, arena.LaysOut t :=
    ⟨fun ⟨t, ht⟩ => ⟨t, ht, fun _ hu => laysOut_unique hu ht⟩, ExistsUnique.exists⟩
  refine ⟨judges_iff arena root, ?_, ?_⟩
  · rw [haccepts, hunique]
  · rw [← haccepts]
    cases arena.validate root <;> simp

end Arena

end PrefixIntegral
