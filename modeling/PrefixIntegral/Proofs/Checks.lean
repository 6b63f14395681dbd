import PrefixIntegral.Proofs.Term

/-!
The checks of arenas, opened into what they ask of nodes and places. The check that every place can
be reached asks for nothing more: references alone already lead to every place.
-/

namespace PrefixIntegral

namespace Arena

variable {α : Type}

theorem checkAll_iff {β ε : Type} {check : β → Except ε Unit} {items : List β} :
    checkAll check items = .ok () ↔ ∀ item ∈ items, check item = .ok () := by
  refine ⟨checkAll_ok, ?_⟩
  intro h
  induction items with
  | nil => rfl
  | cons first rest ih =>
      rw [checkAll, h first (by simp)]
      exact ih fun item hm => h item (by simp [hm])

theorem checkChild_iff {size place : Nat} {child : Int} :
    checkChild size place child = .ok () ↔ (place : Int) < child ∧ child < size := by
  refine ⟨checkChild_ok, ?_⟩
  intro h
  rw [checkChild, if_neg (by omega), if_neg (by omega)]

theorem checkNodes_cons_iff [Scalar α] {size place : Nat} {node : Node α} {rest : List (Node α)} :
    checkNodes size place (node :: rest) = .ok () ↔
      checkNode place node = .ok () ∧
        (∀ child ∈ node.children, (place : Int) < child ∧ child < size) ∧
          checkNodes size (place + 1) rest = .ok () := by
  rw [checkNodes]
  cases hn : checkNode place node with
  | error fault => simp [bind, Except.bind]
  | ok u =>
      cases hc : checkAll (checkChild size place) node.children with
      | error fault =>
          have : ¬ ∀ child ∈ node.children, (place : Int) < child ∧ child < size := by
            intro h
            rw [checkAll_iff.2 fun child hm => checkChild_iff.2 (h child hm)] at hc
            cases hc
          simp [bind, Except.bind, this]
      | ok v =>
          have := fun child hm => checkChild_iff.1 (checkAll_iff.1 hc child hm)
          simp only [bind, Except.bind, true_and]
          constructor
          · intro hrest
            exact ⟨this, hrest⟩
          · intro hboth
            exact hboth.2

theorem checkNode_of_mem [Scalar α] {size place : Nat} {nodes : List (Node α)}
    (h : checkNodes size place nodes = .ok ()) {node : Node α} (hmem : node ∈ nodes) :
    ∃ place, checkNode place node = .ok () := by
  induction nodes generalizing place with
  | nil => cases hmem
  | cons first rest ih =>
      obtain ⟨hfirst, -, hrest⟩ := checkNodes_cons_iff.1 h
      rcases List.mem_cons.1 hmem with rfl | hmem
      · exact ⟨place, hfirst⟩
      · exact ih hrest hmem

theorem checkNode_constant_iff [Scalar α] {node : Node α} {place : Nat}
    (hkind : node.kind = .constant) : checkNode place node = .ok () ↔
      node.children = [] ∧ Scalar.isNaN node.value = false := by
  by_cases hchildren : node.children = [] <;> by_cases hvalue : Scalar.isNaN node.value <;>
    simp [checkNode, hkind, hchildren, hvalue]

theorem checkNodes_append_iff [Scalar α] {size place : Nat} {first second : List (Node α)} :
    checkNodes size place (first ++ second) = .ok () ↔
      checkNodes size place first = .ok () ∧
        checkNodes size (place + first.length) second = .ok () := by
  induction first generalizing place with
  | nil => simp [checkNodes]
  | cons node rest ih =>
      rw [List.cons_append, checkNodes_cons_iff, checkNodes_cons_iff, ih, List.length_cons,
        show place + 1 + rest.length = place + (rest.length + 1) by omega]
      simp only [and_assoc]

theorem validate_iff [Scalar α] {nodes : Arena α} {root : Int} :
    nodes.validate root = .ok () ↔
      (0 ≤ root ∧ root < nodes.size) ∧ checkNodes nodes.size 0 nodes.toList = .ok () ∧
        (∀ place < nodes.size, nodes.checkReferences root.toNat place = .ok ()) ∧
          nodes.reachable root.toNat = nodes.size ∧ nodes.checkOrder 0 [root] = .ok () := by
  have hreach : nodes.checkReachable root.toNat = .ok () ↔
      nodes.reachable root.toNat = nodes.size := by
    unfold checkReachable
    dsimp only
    split
    · simp [*]
    · simp [*]
  have hrefs : checkAll (nodes.checkReferences root.toNat) (List.range nodes.size) = .ok () ↔
      ∀ place < nodes.size, nodes.checkReferences root.toNat place = .ok () := by
    simp only [checkAll_iff, List.mem_range]
  rw [← hreach, ← hrefs]
  unfold validate
  by_cases hs : nodes.size = 0
  · rw [if_pos hs]
    simp only [reduceCtorEq, false_iff]
    omega
  · by_cases hr : root < 0 ∨ (nodes.size : Int) ≤ root
    · rw [if_neg hs, if_pos hr]
      simp only [reduceCtorEq, false_iff]
      omega
    · rw [if_neg hs, if_neg hr]
      have hroot : 0 ≤ root ∧ root < nodes.size := by omega
      cases checkNodes nodes.size 0 nodes.toList <;>
        cases checkAll (nodes.checkReferences root.toNat) (List.range nodes.size) <;>
          cases nodes.checkReachable root.toNat <;> simp [bind, Except.bind, hroot]

theorem checkReferences_zero_iff {nodes : Arena α} {place : Nat} :
    nodes.checkReferences 0 place = .ok () ↔
      nodes.references place = if place = 0 then 0 else 1 := by
  unfold checkReferences
  dsimp only
  by_cases hp : place = 0
  · rw [if_pos hp, if_pos hp]
    by_cases hc : nodes.references place = 0 <;> simp [hc]
  · rw [if_neg hp, if_neg hp]
    by_cases hc : nodes.references place = 1 <;> simp [hc]

theorem childrenAt_of_getElem? {nodes : Arena α} {place : Nat} {node : Node α}
    (h : nodes.toList[place]? = some node) : nodes.childrenAt place = node.children := by
  have h' : nodes[place]? = some node := by simpa using h
  rw [childrenAt, if_neg (by omega), Int.toNat_natCast, h']
  rfl

theorem getElem?_of_cons_prefix {β : Type} {base : Nat} {x : β} {rest l : List β}
    (h : x :: rest <+: l.drop base) : l[base]? = some x ∧ rest <+: l.drop (base + 1) := by
  obtain ⟨after, hafter⟩ := h
  constructor
  · rw [← List.head?_drop, ← hafter]
    rfl
  · rw [← List.drop_drop, ← hafter]
    exact ⟨after, rfl⟩

theorem childrenAt_of_prefix {arena : Arena α} {base : Nat} {node : Node α} {rest : List (Node α)}
    (h : node :: rest <+: arena.toList.drop base) :
    base < arena.size ∧ arena.childrenAt base = node.children ∧
      rest <+: arena.toList.drop (base + 1) := by
  obtain ⟨hnode, hrest⟩ := getElem?_of_cons_prefix h
  obtain ⟨hlt, -⟩ := List.getElem?_eq_some_iff.1 hnode
  exact ⟨by simpa using hlt, childrenAt_of_getElem? hnode, hrest⟩

theorem lt_size_of_mem_childrenAt {nodes : Arena α} {place : Nat} {child : Int}
    (h : child ∈ nodes.childrenAt place) : place < nodes.size := by
  refine Nat.lt_of_not_le ?_
  intro hout
  rw [childrenAt, if_neg (by omega), Int.toNat_natCast, Array.getElem?_eq_none hout] at h
  simp at h

theorem size_foldl_mark (children : List Int) (seen : Array Bool) :
    (children.foldl (fun seen child => seen.setIfInBounds child.toNat true) seen).size =
      seen.size := by
  induction children generalizing seen with
  | nil => rfl
  | cons child rest ih => rw [List.foldl_cons, ih, Array.size_setIfInBounds]

theorem getElem?_foldl_mark {children : List Int} {seen : Array Bool} {place : Nat}
    (hplace : place < seen.size) (h : seen[place]? = some true ∨ (place : Int) ∈ children) :
    (children.foldl (fun seen child => seen.setIfInBounds child.toNat true) seen)[place]? =
      some true := by
  induction children generalizing seen with
  | nil => simpa using h
  | cons child rest ih =>
      rw [List.foldl_cons]
      apply ih (by simpa using hplace)
      by_cases hc : (place : Int) = child
      · subst hc
        simp [hplace]
      · have hrest : seen[place]? = some true ∨ (place : Int) ∈ rest := by simpa [hc] using h
        refine hrest.imp_left ?_
        intro hseen
        rw [Array.getElem?_setIfInBounds]
        split
        · simp [*]
        · exact hseen

def marksAfter (nodes : Arena α) (count : Nat) : Array Bool :=
  (List.range count).foldl
    (fun seen place =>
      if seen.getD place false then
        (nodes.childrenAt place).foldl (fun seen child => seen.setIfInBounds child.toNat true) seen
      else seen)
    ((Array.replicate nodes.size false).setIfInBounds 0 true)

theorem marksAfter_succ (nodes : Arena α) (count : Nat) :
    nodes.marksAfter (count + 1) =
      if (nodes.marksAfter count).getD count false then
        (nodes.childrenAt count).foldl (fun seen child => seen.setIfInBounds child.toNat true)
          (nodes.marksAfter count)
      else nodes.marksAfter count := by
  rw [marksAfter, List.range_succ, List.foldl_append]
  rfl

theorem size_marksAfter (nodes : Arena α) (count : Nat) :
    (nodes.marksAfter count).size = nodes.size := by
  induction count with
  | zero => simp [marksAfter]
  | succ count ih =>
      rw [marksAfter_succ]
      split
      · rw [size_foldl_mark, ih]
      · exact ih

theorem marksAfter_step {nodes : Arena α} {count place : Nat} (hplace : place < nodes.size)
    (h : (nodes.marksAfter count)[place]? = some true ∨
      (nodes.marksAfter count)[count]? = some true ∧ (place : Int) ∈ nodes.childrenAt count) :
    (nodes.marksAfter (count + 1))[place]? = some true := by
  have hsize := nodes.size_marksAfter count
  rw [marksAfter_succ]
  split
  · exact getElem?_foldl_mark (by omega) (h.imp_right And.right)
  · rename_i hcount
    refine h.resolve_right fun hseen => hcount ?_
    simp [Array.getD_eq_getD_getElem?, hseen.1]

/-- Where every place but the first is an operand of an earlier one, one pass marks everything: an
operator is marked by the time it is passed, and then marks its operands. -/
theorem marksAfter_of_parent {nodes : Arena α}
    (hparent : ∀ place, 0 < place → place < nodes.size →
      ∃ parent < place, (place : Int) ∈ nodes.childrenAt parent)
    {count place : Nat} (hplace : place < nodes.size)
    (h : place = 0 ∨ ∃ parent < count, (place : Int) ∈ nodes.childrenAt parent) :
    (nodes.marksAfter count)[place]? = some true := by
  induction count generalizing place with
  | zero =>
      obtain rfl : place = 0 := by simpa using h
      simp [marksAfter, hplace]
  | succ count ih =>
      apply marksAfter_step hplace
      rcases h with rfl | ⟨parent, hlt, hmem⟩
      · exact .inl (ih hplace (.inl rfl))
      · rcases Nat.lt_succ_iff_lt_or_eq.1 hlt with hbefore | rfl
        · exact .inl (ih hplace (.inr ⟨parent, hbefore, hmem⟩))
        · have hinside := lt_size_of_mem_childrenAt hmem
          refine .inr ⟨ih hinside ?_, hmem⟩
          rcases Nat.eq_zero_or_pos parent with hzero | hpos
          · exact .inl hzero
          · exact .inr (hparent parent hpos hinside)

/-- Every place of an arena can be reached once every place but the first is an operand of an
earlier one. -/
theorem reachable_of_parent {nodes : Arena α}
    (hparent : ∀ place, 0 < place → place < nodes.size →
      ∃ parent < place, (place : Int) ∈ nodes.childrenAt parent) :
    nodes.reachable 0 = nodes.size := by
  have hsize := nodes.size_marksAfter nodes.size
  have hall : ∀ mark ∈ (nodes.marksAfter nodes.size).toList, mark = true := by
    intro mark hm
    obtain ⟨place, hplace, rfl⟩ := List.getElem_of_mem hm
    have hin : place < nodes.size := by simpa [hsize] using hplace
    have : (nodes.marksAfter nodes.size)[place]? = some true := marksAfter_of_parent hparent hin (by
      rcases Nat.eq_zero_or_pos place with hzero | hpos
      · exact .inl hzero
      · obtain ⟨parent, hlt, hmem⟩ := hparent place hpos hin
        exact .inr ⟨parent, by omega, hmem⟩)
    simpa [hin, hsize] using this
  show ((nodes.marksAfter nodes.size).toList.filter id).length = nodes.size
  rw [List.filter_eq_self.2 (by simpa using hall), Array.length_toList, hsize]

theorem parent_of_references [Scalar α] {nodes : Arena α}
    (hnodes : checkNodes nodes.size 0 nodes.toList = .ok ()) {place : Nat}
    (h : 0 < nodes.references place) :
    ∃ parent < place, (place : Int) ∈ nodes.childrenAt parent := by
  obtain ⟨node, hnode, hmem⟩ := List.mem_flatMap.1 (List.count_pos_iff.1 h)
  obtain ⟨parent, hparent, rfl⟩ := List.getElem_of_mem hnode
  have hlt := checkNodes_ok hnodes hparent _ hmem
  refine ⟨parent, by omega, ?_⟩
  rwa [childrenAt_of_getElem? (List.getElem?_eq_getElem hparent)]

end Arena

end PrefixIntegral
