import PrefixIntegral.Proofs.Validation

/-!
Lines of parents. Once every node suits its kind, every operand comes after its operator, and every
place is an operand as often as it should be, one line of parents leads from every place up to the
first. So all places are reachable, and the walk in pre-order, which keeps no record of what it has
met, meets every place once.
-/

namespace PrefixIntegral

variable {α β γ : Type}

/-! ## Items that are told by what they give -/

theorem eq_of_count_flatMap_le_one [DecidableEq γ] {f : β → List γ} {items : List β} {x : γ}
    (hcount : (items.flatMap f).count x ≤ 1) {first second : β} (hfirst : first ∈ items)
    (hsecond : second ∈ items) (hx : x ∈ f first) (hx' : x ∈ f second) : first = second := by
  induction items with
  | nil => cases hfirst
  | cons item rest ih =>
      rw [List.flatMap_cons, List.count_append] at hcount
      have hnone : ∀ other ∈ rest, x ∈ f item → x ∉ f other := by
        intro other hother hitem hlater
        have hhere := List.count_pos_iff.2 hitem
        have hthere := List.count_pos_iff.2 (List.mem_flatMap.2 ⟨other, hother, hlater⟩)
        omega
      obtain rfl | hrest := List.mem_cons.1 hfirst
      · obtain rfl | hrest := List.mem_cons.1 hsecond
        · rfl
        · exact absurd hx' (hnone second hrest hx)
      · obtain rfl | hrest' := List.mem_cons.1 hsecond
        · exact absurd hx (hnone first hrest hx')
        · exact ih (by omega) hrest hrest'

theorem count_flatMap_of_unique [DecidableEq β] [DecidableEq γ] {f : β → List γ} {giver : β} {x : γ}
    (hone : (f giver).count x = 1) (items : List β)
    (hunique : ∀ item ∈ items, x ∈ f item → item = giver) :
    (items.flatMap f).count x = items.count giver := by
  induction items with
  | nil => rfl
  | cons item rest ih =>
      obtain ⟨hitem, hrest⟩ := List.forall_mem_cons.1 hunique
      rw [List.flatMap_cons, List.count_append, ih hrest, List.count_cons]
      by_cases hsame : item = giver
      · subst hsame
        rw [hone, beq_self_eq_true, if_pos rfl, Nat.add_comm]
      · have hnone : (f item).count x = 0 := List.count_eq_zero.2 (mt hitem hsame)
        rw [hnone, if_neg (by simpa using hsame), Nat.zero_add, Nat.add_zero]

theorem flatMap_eq_range (f : β → List γ) (items : List β) : items.flatMap f =
    (List.range items.length).flatMap fun i => (items[i]?.map f).getD [] := by
  induction items with
  | nil => rfl
  | cons item rest ih =>
      rw [List.flatMap_cons, ih, List.length_cons, List.range_succ_eq_map, List.flatMap_cons,
        List.flatMap_map]
      rfl

namespace Arena

variable {arena : Arena α}

def places (arena : Arena α) : List Int := List.map Nat.cast (List.range arena.size)

theorem mem_places {place : Int} : place ∈ arena.places ↔ 0 ≤ place ∧ place < arena.size := by
  rw [places, List.mem_map]
  constructor
  · rintro ⟨place, hmem, rfl⟩
    have hlt := List.mem_range.1 hmem
    omega
  · rintro ⟨hzero, hlt⟩
    exact ⟨place.toNat, List.mem_range.2 (by omega), by omega⟩

theorem nodup_places (arena : Arena α) : arena.places.Nodup :=
  List.nodup_range.map Nat.cast_injective

theorem flatMap_children (arena : Arena α) :
    arena.toList.flatMap Node.children = arena.places.flatMap arena.childrenAt := by
  rw [flatMap_eq_range, places, List.flatMap_map, Array.length_toList]
  refine List.flatMap_congr fun place _ => ?_
  rw [childrenAt, if_neg (by omega), Int.toNat_natCast, Array.getElem?_toList]

theorem references_eq (arena : Arena α) (place : Nat) :
    arena.references place = (arena.places.flatMap arena.childrenAt).count (place : Int) := by
  rw [references, flatMap_children]

theorem mem_places_of_mem_childrenAt {parent place : Int} (h : place ∈ arena.childrenAt parent) :
    parent ∈ arena.places := by
  have hzero : 0 ≤ parent := by
    refine Int.not_lt.1 fun hneg => ?_
    rw [childrenAt, if_pos hneg] at h
    cases h
  obtain ⟨parent, rfl⟩ := Int.eq_ofNat_of_zero_le hzero
  have hlt := lt_size_of_mem_childrenAt h
  exact mem_places.2 ⟨hzero, by omega⟩

/-! ## Lines of parents -/

/-- A line of parents from a place up to the first: each place in it is an operand of the one that
comes next. -/
inductive Ascends (arena : Arena α) : Int → List Int → Prop
  | top : Ascends arena 0 [0]
  | up {place parent : Int} {line : List Int} : place ∈ arena.childrenAt parent →
      Ascends arena parent line → Ascends arena place (place :: line)

/-- Every operand comes after its operator, the first place is no operand, and every other place is
an operand once. -/
structure Descends (arena : Arena α) : Prop where
  grows : arena.Grows
  pos : 0 < arena.size
  first : arena.references 0 = 0
  others : ∀ place, 0 < place → place < arena.size → arena.references place = 1

namespace Descends

theorem notMem_childrenAt (h : arena.Descends) (parent : Int) : 0 ∉ arena.childrenAt parent := by
  intro hmem
  have hcount := h.first
  rw [references_eq, List.count_eq_zero] at hcount
  exact hcount (List.mem_flatMap.2 ⟨parent, mem_places_of_mem_childrenAt hmem, hmem⟩)

theorem parent_unique (h : arena.Descends) {place parent other : Int}
    (hparent : place ∈ arena.childrenAt parent) (hother : place ∈ arena.childrenAt other) :
    parent = other := by
  obtain ⟨-, hin⟩ := h.grows parent place hparent
  obtain ⟨hzero, hlt⟩ := Finset.mem_Ico.1 hin
  obtain ⟨place, rfl⟩ := Int.eq_ofNat_of_zero_le hzero
  have hpos : 0 < place := by
    refine Nat.pos_of_ne_zero ?_
    rintro rfl
    exact h.notMem_childrenAt parent hparent
  have hcount := h.others place hpos (by omega)
  rw [references_eq] at hcount
  exact eq_of_count_flatMap_le_one hcount.le (mem_places_of_mem_childrenAt hparent)
    (mem_places_of_mem_childrenAt hother) hparent hother

theorem exists_parent (h : arena.Descends) {place : Nat} (hpos : 0 < place)
    (hlt : place < arena.size) :
    ∃ parent : Nat, parent < place ∧ (arena.childrenAt parent).count (place : Int) = 1 := by
  have hcount := h.others place hpos hlt
  rw [references_eq] at hcount
  obtain ⟨parent, hin, hmem⟩ := List.mem_flatMap.1 (List.count_pos_iff.1 (hcount ▸ Nat.one_pos))
  obtain ⟨hzero, -⟩ := mem_places.1 hin
  obtain ⟨parent, rfl⟩ := Int.eq_ofNat_of_zero_le hzero
  obtain ⟨hless, -⟩ := h.grows _ _ hmem
  refine ⟨parent, by omega, ?_⟩
  have hsome := List.count_pos_iff.2 hmem
  obtain ⟨before, after, hplaces⟩ := List.append_of_mem hin
  rw [hplaces, List.flatMap_append, List.flatMap_cons, List.count_append, List.count_append]
    at hcount
  omega

theorem exists_ascends (h : arena.Descends) {place : Nat} (hlt : place < arena.size) :
    ∃ line, arena.Ascends place line := by
  induction place using Nat.strongRecOn with
  | ind place ih =>
      obtain rfl | hpos := Nat.eq_zero_or_pos place
      · exact ⟨[0], .top⟩
      · obtain ⟨parent, hless, hcount⟩ := h.exists_parent hpos hlt
        obtain ⟨line, hline⟩ := ih parent hless (by omega)
        exact ⟨_, .up (List.count_pos_iff.1 (by omega)) hline⟩

theorem ascends_unique (h : arena.Descends) {place : Int} {line other : List Int}
    (hline : arena.Ascends place line) (hother : arena.Ascends place other) : line = other := by
  induction hline generalizing other with
  | top =>
      cases hother with
      | top => rfl
      | up hmem _ => exact absurd hmem (h.notMem_childrenAt _)
  | up hmem _ ih =>
      cases hother with
      | top => exact absurd hmem (h.notMem_childrenAt _)
      | up hmem' hrest =>
          cases h.parent_unique hmem hmem'
          rw [ih hrest]

end Descends

/-! ## The walk in pre-order -/

theorem Visits.perm {pending order : List Int} (h : Visits arena pending order) :
    order.Perm (pending ++ order.flatMap arena.childrenAt) := by
  induction h with
  | done => exact .nil
  | @visit place pending order _ ih =>
      rw [List.flatMap_cons, List.cons_append]
      refine (ih.trans ?_).cons place
      rw [List.append_assoc]
      exact List.perm_append_comm_assoc _ _ _

theorem Visits.unique {pending order other : List Int} (h : Visits arena pending order)
    (hother : Visits arena pending other) : order = other := by
  induction h generalizing other with
  | done =>
      cases hother
      rfl
  | visit _ ih =>
      cases hother with
      | visit hrest => rw [ih hrest]

theorem Descends.count_order (h : arena.Descends) {order : List Int}
    (hvisits : Visits arena [0] order) {place : Nat} (hlt : place < arena.size) :
    order.count (place : Int) = 1 := by
  induction place using Nat.strongRecOn with
  | ind place ih =>
      rw [hvisits.perm.count_eq, List.count_append]
      obtain rfl | hpos := Nat.eq_zero_or_pos place
      · have hnone : (order.flatMap arena.childrenAt).count ((0 : Nat) : Int) = 0 := by
          rw [List.count_eq_zero, List.mem_flatMap]
          rintro ⟨parent, -, hmem⟩
          exact h.notMem_childrenAt parent hmem
        rw [hnone]
        rfl
      · -- A place that is no root is met as often as its parent, of which it is an operand once.
        obtain ⟨parent, hless, hcount⟩ := h.exists_parent hpos hlt
        have hmem := List.count_pos_iff.1 (hcount ▸ Nat.one_pos)
        have hroot : ([0] : List Int).count (place : Int) = 0 := by
          rw [List.count_eq_zero, List.mem_singleton]
          omega
        rw [hroot, count_flatMap_of_unique hcount order fun _ _ hother =>
          h.parent_unique hother hmem, ih parent hless (by omega)]

theorem Descends.perm_places (h : arena.Descends) {order : List Int}
    (hvisits : Visits arena [0] order) : order.Perm arena.places := by
  have hin : ∀ place ∈ order, place ∈ arena.places := by
    intro place hmem
    rw [hvisits.perm.mem_iff, List.mem_append, List.mem_singleton, List.mem_flatMap] at hmem
    rw [mem_places]
    rcases hmem with rfl | ⟨parent, -, hchild⟩
    · exact ⟨Int.le_refl 0, by exact_mod_cast h.pos⟩
    · exact Finset.mem_Ico.1 (h.grows parent place hchild).2
  have hcount : ∀ place ∈ arena.places, order.count place = 1 := by
    intro place hmem
    obtain ⟨hzero, hlt⟩ := mem_places.1 hmem
    obtain ⟨place, rfl⟩ := Int.eq_ofNat_of_zero_le hzero
    exact h.count_order hvisits (by omega)
  have hnodup : order.Nodup := by
    refine List.nodup_iff_count_le_one.2 fun place => ?_
    by_cases hmem : place ∈ order
    · exact (hcount place (hin place hmem)).le
    · rw [List.count_eq_zero.2 hmem]
      exact Nat.zero_le 1
  refine (List.perm_ext_iff_of_nodup hnodup arena.nodup_places).2 fun place => ⟨hin place, ?_⟩
  intro hmem
  exact List.count_pos_iff.1 (by rw [hcount place hmem]; exact Nat.one_pos)

/-! ## The checks of places -/

theorem checkAll_error {ε : Type} {check : β → Except ε Unit} {items : List β} {fault : ε}
    (h : checkAll check items = .error fault) : ∃ item ∈ items, check item = .error fault := by
  induction items with
  | nil => cases h
  | cons first rest ih =>
      rw [checkAll] at h
      cases hfirst : check first with
      | error found =>
          rw [hfirst] at h
          exact ⟨first, by simp, hfirst.trans h⟩
      | ok u =>
          rw [hfirst] at h
          obtain ⟨item, hmem, hitem⟩ := ih h
          exact ⟨item, by simp [hmem], hitem⟩

theorem checkChild_ne_unreachable (size place : Nat) (child : Int) (count : Nat) :
    checkChild size place child ≠ .error (.unreachable count) := by
  unfold checkChild
  split_ifs <;> simp

theorem checkReferences_ne_unreachable (arena : Arena α) (root place count : Nat) :
    arena.checkReferences root place ≠ .error (.unreachable count) := by
  unfold checkReferences
  dsimp only
  split_ifs <;> simp

theorem checkOrder_ne_unreachable (arena : Arena α) (position : Nat) (pending : List Int)
    (count : Nat) : arena.checkOrder position pending ≠ .error (.unreachable count) := by
  fun_induction checkOrder arena position pending with
  | case1 => simp
  | case2 => simp
  | case3 position place pending hplace hlt ih => exact ih
  | case4 => simp

variable [Scalar α]

theorem checkNodes_error {size place : Nat} {nodes : List (Node α)} {fault : StructureFault}
    (h : checkNodes size place nodes = .error fault) : ∃ place, ∃ node ∈ nodes,
      checkNode place node = .error fault ∨
        ∃ child ∈ node.children, checkChild size place child = .error fault := by
  induction nodes generalizing place with
  | nil => cases h
  | cons first rest ih =>
      rw [checkNodes] at h
      cases hnode : checkNode place first with
      | error found =>
          rw [hnode] at h
          exact ⟨place, first, by simp, .inl (hnode.trans h)⟩
      | ok u =>
          rw [hnode] at h
          cases hchildren : checkAll (checkChild size place) first.children with
          | error found =>
              rw [hchildren] at h
              exact ⟨place, first, by simp, .inr (checkAll_error (hchildren.trans h))⟩
          | ok v =>
              rw [hchildren] at h
              obtain ⟨place, node, hmem, hfault⟩ := ih h
              exact ⟨place, node, by simp [hmem], hfault⟩

theorem checkNode_ne_unreachable (place : Nat) (node : Node α) (count : Nat) :
    checkNode place node ≠ .error (.unreachable count) := by
  unfold checkNode
  cases node.kind with
  | argument | constant | operator op =>
      dsimp only
      split_ifs <;> simp
  | unknown number => simp

theorem checkPlaces_ne_unreachable (arena : Arena α) (root : Int) (count : Nat) :
    arena.checkPlaces root ≠ .error (.unreachable count) := by
  unfold checkPlaces
  split_ifs
  · simp
  · simp
  · cases hnodes : checkNodes arena.size 0 arena.toList with
    | error fault =>
        rintro ⟨⟩
        obtain ⟨place, node, -, hnode | ⟨child, -, hchild⟩⟩ := checkNodes_error hnodes
        · exact checkNode_ne_unreachable place node count hnode
        · exact checkChild_ne_unreachable arena.size place child count hchild
    | ok u =>
        intro hrefs
        obtain ⟨place, -, hplace⟩ := checkAll_error hrefs
        exact checkReferences_ne_unreachable arena root.toNat place count hplace

theorem validate_ne_unreachable (arena : Arena α) (root : Int) (count : Nat) :
    arena.validate root ≠ .error (.unreachable count) := by
  intro h
  cases hplaces : arena.checkPlaces root with
  | error fault =>
      rw [validate_eq, hplaces] at h
      exact arena.checkPlaces_ne_unreachable root count (hplaces.trans h)
  | ok u =>
      obtain rfl := root_of_checkPlaces hplaces
      rw [validate_of_checkPlaces hplaces] at h
      exact arena.checkOrder_ne_unreachable 0 [0] count h

theorem descends_of_checkPlaces (h : arena.checkPlaces 0 = .ok ()) : arena.Descends := by
  obtain ⟨⟨-, hpos⟩, hnodes, hrefs⟩ := checkPlaces_ok h
  have hcount : ∀ place < arena.size, arena.references place = if place = 0 then 0 else 1 :=
    fun place hplace => checkReferences_zero_iff.1 (hrefs place hplace)
  refine ⟨grows_of_checkNodes hnodes, by omega, hcount 0 (by omega), ?_⟩
  intro place hzero hplace
  rw [hcount place hplace, if_neg (by omega)]

/-- No arena is refused for places that cannot be reached. Once the nodes, their operands and the
counts of references pass for a root inside the arena, the root is the first place, one line of
parents leads up to it from every place, all places are reachable, and the walk in pre-order, which
keeps no record of what it has met, meets every place once and ends. -/
theorem lines_of_parents (arena : Arena α) (root : Int) :
    (∀ count, arena.validate root ≠ .error (.unreachable count)) ∧
    (0 ≤ root ∧ root < arena.size → checkNodes arena.size 0 arena.toList = .ok () →
      checkAll (arena.checkReferences root.toNat) (List.range arena.size) = .ok () →
        root = 0 ∧
        (∀ place : Nat, place < arena.size → ∃! line, arena.Ascends place line) ∧
        arena.reachable root.toNat = arena.size ∧
        (∃ marked, Marks arena ∅ [root] marked) ∧
        (∀ marked, Marks arena ∅ [root] marked → marked.card = arena.size) ∧
        ∃ order, (∀ other, Visits arena [root] other ↔ other = order) ∧
          order.Perm arena.places) := by
  refine ⟨arena.validate_ne_unreachable root, ?_⟩
  intro hroot hnodes hrefs
  have hplaces : arena.checkPlaces root = .ok () := by
    rw [checkPlaces, if_neg (by omega), if_neg (by omega), hnodes]
    exact hrefs
  obtain rfl := root_of_checkPlaces hplaces
  have hdescends := descends_of_checkPlaces hplaces
  have hparent := parent_of_checkPlaces hplaces
  obtain ⟨order, hvisits⟩ := Visits.cons hdescends.grows hroot.2 Visits.done
  refine ⟨rfl, ?_, reachable_of_parent hparent, ?_, ?_, order, ?_, hdescends.perm_places hvisits⟩
  · intro place hplace
    obtain ⟨line, hline⟩ := hdescends.exists_ascends hplace
    exact ⟨line, hline, fun _ hother => hdescends.ascends_unique hother hline⟩
  · exact exists_marks hdescends.grows ∅ [0] (by simpa using hroot.2)
  · intro marked hmarks
    exact hmarks.card_eq hdescends.grows hroot.2 hparent
  · intro other
    constructor
    · intro hother
      exact hother.unique hvisits
    · rintro rfl
      exact hvisits

def swapped : Arena Float := #[.operator .add [2, 1], .argument, .argument]

/-- The walk through a sum that is not in pre-order still meets every place once. -/
theorem lines_of_swapped : swapped.validate 0 = .error (.outOfOrder 2 1) ∧
    (∃! line, swapped.Ascends 2 line) ∧ [0, 2, 1].Perm swapped.places := by
  obtain ⟨-, hlines, -, -, -, order, horder, hperm⟩ :=
    (lines_of_parents swapped 0).2 (by decide) rfl rfl
  have hvisits : Visits swapped [0] [0, 2, 1] := .visit (.visit (.visit .done))
  rw [(horder _).1 hvisits]
  refine ⟨?_, hlines 2 (by decide), hperm⟩
  rw [validate_of_checkPlaces rfl]
  simp [checkOrder, childrenAt, swapped, Node.operator]

end Arena

end PrefixIntegral
