import PrefixIntegral.Proofs.Visits

/-!
Walks by distance. The subtree at a place fills the places up to its end, every one of them at one
distance from where it starts. A walk depth first lists them as they stand; one breadth first lists
them by distance, and those at one distance as they stand; and the depth counts the distances.
-/

namespace PrefixIntegral

open Term (nodesOfAll starts sizeOfAll)

variable {α β : Type}

namespace Arena

/-- So many steps, each from an operator to one of its operands, lead from a root to a place. -/
inductive Leads (arena : Arena α) (root : Int) : Nat → Int → Prop
  | here : Leads arena root 0 root
  | step {distance : Nat} {place child : Int} : Leads arena root distance place →
      child ∈ arena.childrenAt place → Leads arena root (distance + 1) child

/-- A place is nearer to the root than another, or as far from it and before the other. -/
def Precedes (arena : Arena α) (root first second : Int) : Prop :=
  ∃ near far, arena.Leads root near first ∧ arena.Leads root far second ∧
    (near < far ∨ near = far ∧ first < second)

/-- The places to which so many steps lead, in the order of the places one step before. -/
def level (arena : Arena α) (root : Int) : Nat → List Int
  | 0 => [root]
  | distance + 1 => (arena.level root distance).flatMap arena.childrenAt

variable {arena : Arena α} {root place : Int}

theorem mem_level_iff {distance : Nat} :
    place ∈ arena.level root distance ↔ arena.Leads root distance place := by
  induction distance generalizing place with
  | zero =>
      rw [level, List.mem_singleton]
      constructor
      · intro h
        subst h
        exact .here
      · intro h
        cases h
        rfl
  | succ distance ih =>
      rw [level, List.mem_flatMap]
      constructor
      · intro h
        obtain ⟨parent, hparent, hplace⟩ := h
        exact .step (ih.1 hparent) hplace
      · intro h
        cases h with
        | step hparent hplace => exact ⟨_, ih.2 hparent, hplace⟩

theorem level_succ (arena : Arena α) (root : Int) (distance : Nat) :
    arena.level root (distance + 1) =
      (arena.childrenAt root).flatMap fun child => arena.level child distance := by
  induction distance with
  | zero => simp [level]
  | succ distance ih => rw [level, ih, List.flatMap_assoc]; rfl

theorem visitFrom_row (arena : Arena α) (steps : Nat) (row later : List Int) :
    arena.visitFrom .breadthFirst (row.length + steps) (row ++ later) =
      row ++ arena.visitFrom .breadthFirst steps (later ++ row.flatMap arena.childrenAt) := by
  induction row generalizing later with
  | nil => simp
  | cons place rest ih =>
      rw [List.length_cons, Nat.add_right_comm, List.cons_append, visitFrom]
      have hrest := ih (later ++ arena.childrenAt place)
      rw [VisitOrder.enqueue, List.append_assoc, hrest, List.flatMap_cons, List.append_assoc]
      rfl

theorem visitFrom_levels (arena : Arena α) (root : Int) (count steps : Nat) :
    arena.visitFrom .breadthFirst
        (((List.range count).flatMap (arena.level root)).length + steps) [root] =
      (List.range count).flatMap (arena.level root) ++
        arena.visitFrom .breadthFirst steps (arena.level root count) := by
  induction count generalizing steps with
  | zero => simp [level]
  | succ count ih =>
      have hrow := arena.visitFrom_row steps (arena.level root count) []
      rw [List.append_nil, List.nil_append] at hrow
      rw [List.range_succ, List.flatMap_append, List.flatMap_singleton, List.length_append,
        Nat.add_assoc, ih, hrow, List.append_assoc]
      rfl

end Arena

namespace Term

mutual

def distances : Term β → List Nat
  | .leaf _ => [0]
  | .apply _ operands => 0 :: (distancesOfAll operands).map (· + 1)

/-- How far the leaves and operators of several terms are from the first of their own. -/
def distancesOfAll : List (Term β) → List Nat
  | [] => []
  | t :: rest => t.distances ++ distancesOfAll rest

end

def operands : Term β → List (Term β)
  | .leaf _ => []
  | .apply _ operands => operands

theorem length_distancesOfAll_of {operands : List (Term β)}
    (h : ∀ t ∈ operands, t.distances.length = t.size) :
    (distancesOfAll operands).length = sizeOfAll operands := by
  induction operands with
  | nil => rfl
  | cons t rest ih =>
      rw [distancesOfAll, List.length_append, h t (by simp), ih fun u hu => h u (by simp [hu]),
        sizeOfAll]

@[simp] theorem length_distances (t : Term β) : t.distances.length = t.size := by
  induction t with
  | leaf content => rfl
  | apply op operands ih =>
      rw [distances, List.length_cons, List.length_map, length_distancesOfAll_of ih, size]

theorem starts_append (base : Nat) (first second : List (Term β)) :
    starts base (first ++ second) =
      starts base first ++ starts (base + sizeOfAll first) second := by
  induction first generalizing base with
  | nil => rfl
  | cons t rest ih => simp only [List.cons_append, starts, sizeOfAll, ih, Nat.add_assoc]

theorem distances_eq (t : Term β) :
    t.distances = 0 :: (distancesOfAll t.operands).map (· + 1) := by
  cases t <;> rfl

theorem size_eq (t : Term β) : t.size = sizeOfAll t.operands + 1 := by
  cases t <;> rfl

def placesAt (distance base : Nat) (distances : List Nat) : List Int :=
  (distances.zipIdx base).filterMap fun entry =>
    if entry.1 = distance then some (entry.2 : Int) else none

theorem placesAt_append (distance base : Nat) (first second : List Nat) :
    placesAt distance base (first ++ second) =
      placesAt distance base first ++ placesAt distance (base + first.length) second := by
  rw [placesAt, List.zipIdx_append, List.filterMap_append]
  rfl

theorem placesAt_cons (distance base found : Nat) (rest : List Nat) :
    placesAt distance base (found :: rest) =
      if found = distance then (base : Int) :: placesAt distance (base + 1) rest
      else placesAt distance (base + 1) rest := by
  by_cases hfound : found = distance
  · simp [placesAt, List.zipIdx_cons, hfound]
  · simp [placesAt, List.zipIdx_cons, hfound]

theorem placesAt_zero_map_succ (base : Nat) (distances : List Nat) :
    placesAt 0 base (distances.map (· + 1)) = [] := by
  rw [placesAt, List.filterMap_eq_nil_iff]
  intro entry hentry
  obtain ⟨distance, -, hdistance⟩ := List.mem_map.1 (List.fst_mem_of_mem_zipIdx hentry)
  rw [if_neg (by omega)]

theorem placesAt_succ_map_succ (distance base : Nat) (distances : List Nat) :
    placesAt (distance + 1) base (distances.map (· + 1)) = placesAt distance base distances := by
  rw [placesAt, placesAt, List.zipIdx_map, List.filterMap_map]
  refine List.filterMap_congr ?_
  intro entry _
  simp

theorem mem_placesAt_iff {distance base : Nat} {distances : List Nat} {place : Int} :
    place ∈ placesAt distance base distances ↔
      ∃ k, place = (base + k : Nat) ∧ distances[k]? = some distance := by
  simp only [placesAt, List.mem_filterMap, Option.ite_none_right_eq_some, Option.some.injEq]
  constructor
  · intro h
    obtain ⟨⟨found, i⟩, hentry, rfl, rfl⟩ := h
    obtain ⟨hbase, hfound⟩ := List.mk_mem_zipIdx_iff_le_and_getElem?_sub.1 hentry
    exact ⟨i - base, by congr 1; omega, hfound⟩
  · intro h
    obtain ⟨k, rfl, hdistance⟩ := h
    refine ⟨(distance, base + k), ?_, rfl, rfl⟩
    exact List.mk_mem_zipIdx_iff_le_and_getElem?_sub.2 ⟨by omega, by simpa using hdistance⟩

theorem pairwise_placesAt (distance base : Nat) (distances : List Nat) :
    (placesAt distance base distances).Pairwise (· < ·) := by
  have hplaces : (distances.zipIdx base).Pairwise fun first second => first.2 < second.2 := by
    rw [← List.pairwise_map, List.zipIdx_map_snd]
    exact List.pairwise_lt_range'
  refine hplaces.filterMap _ ?_
  intro first second hlt place hplace other hother
  simp only [Option.ite_none_right_eq_some, Option.some.injEq] at hplace hother
  omega

end Term

namespace Tree

variable [Scalar α] {t : Tree α} {base : Nat} {term : Term (Leaf α)}

theorem childrenAt_eq {place : Nat} (hplace : place < t.size) :
    t.nodes.childrenAt place = (t.node place hplace).children := by
  apply Arena.childrenAt_of_getElem?
  rw [Array.getElem?_toList]
  exact Array.getElem?_eq_getElem hplace

/-- At the first of terms that follow one another are the places where its operands start, and these
follow one another, with the other terms after them. -/
theorem childrenAt_of_begins {rest : List (Term (Leaf α))}
    (h : nodesOfAll Leaf.node base (term :: rest) <+: (t.nodes.toList.drop base).map Node.plain) :
    t.nodes.childrenAt base = starts (base + 1) term.operands ∧
      nodesOfAll Leaf.node (base + 1) (term.operands ++ rest) <+:
        (t.nodes.toList.drop (base + 1)).map Node.plain := by
  obtain ⟨hfirst, -⟩ := begins_of_cons h
  cases term with
  | leaf leaf =>
      obtain ⟨hi, hplain, hrest⟩ := exists_of_prefix h
      refine ⟨?_, hrest⟩
      rw [childrenAt_eq hi, ← Node.children_plain, hplain]
      cases leaf <;> rfl
  | apply op operands =>
      obtain ⟨hi, -, hchildren, -⟩ := hfirst.node_apply
      rw [nodesOfAll, Term.nodes, List.cons_append] at h
      obtain ⟨_, -, hrest⟩ := exists_of_prefix h
      refine ⟨(childrenAt_eq hi).trans hchildren, ?_⟩
      rw [Term.nodesOfAll_append]
      rwa [Term.size, Nat.add_comm (sizeOfAll operands), ← Nat.add_assoc] at hrest

theorem begins_iff_all : t.Begins base term ↔
    nodesOfAll Leaf.node base [term] <+: (t.nodes.toList.drop base).map Node.plain := by
  rw [nodesOfAll, nodesOfAll, List.append_nil, Begins]

/-! ## Depth first -/

theorem visitFrom_depthFirst {steps : Nat} {terms : List (Term (Leaf α))}
    (h : nodesOfAll Leaf.node base terms <+: (t.nodes.toList.drop base).map Node.plain)
    (hsteps : sizeOfAll terms ≤ steps) :
    t.nodes.visitFrom .depthFirst steps (starts base terms) =
      (List.range' base (sizeOfAll terms)).map Nat.cast := by
  induction steps generalizing base terms with
  | zero =>
      cases terms with
      | nil => rfl
      | cons term rest =>
          have hpos := term.size_pos
          rw [sizeOfAll] at hsteps
          omega
  | succ steps ih =>
      cases terms with
      | nil => rfl
      | cons term rest =>
          obtain ⟨hchildren, hnext⟩ := childrenAt_of_begins h
          have hsize : sizeOfAll (term :: rest) = sizeOfAll (term.operands ++ rest) + 1 := by
            rw [sizeOfAll, Term.sizeOfAll_append, Term.size_eq]
            omega
          have hplace : base + term.size = base + 1 + sizeOfAll term.operands := by
            rw [Term.size_eq]
            omega
          rw [starts, Arena.visitFrom, VisitOrder.enqueue, hchildren, hplace,
            ← Term.starts_append, ih hnext (by omega), hsize, List.range'_succ, List.map_cons]

theorem visit_depthFirst (h : t.Begins base term) (hi : base < t.size) :
    t.visit .depthFirst base = .ok ((List.range' base term.size).map Nat.cast) := by
  have hsize : sizeOfAll [term] = term.size := rfl
  have hle : sizeOfAll [term] ≤ t.size := by
    have := h.size_le
    omega
  rw [visit, if_neg (by omega), if_neg (by omega), ← hsize,
    ← visitFrom_depthFirst (begins_iff_all.1 h) hle]
  rfl

/-! ## The end of a subtree -/

theorem begins_of_append {first second : List (Term (Leaf α))}
    (h : nodesOfAll Leaf.node base (first ++ second) <+:
      (t.nodes.toList.drop base).map Node.plain) :
    nodesOfAll Leaf.node (base + sizeOfAll first) second <+:
      (t.nodes.toList.drop (base + sizeOfAll first)).map Node.plain := by
  induction first generalizing base with
  | nil => exact h
  | cons term rest ih =>
      rw [sizeOfAll, ← Nat.add_assoc]
      exact ih (begins_of_cons h).2

theorem subtreeEnd_eq (h : t.Begins base term) (hi : base < t.size) :
    t.subtreeEnd base hi = base + term.size := by
  induction term generalizing base with
  | leaf leaf =>
      obtain ⟨hchildren, -⟩ := childrenAt_of_begins (begins_iff_all.1 h)
      rw [childrenAt_eq hi] at hchildren
      rw [subtreeEnd]
      split
      · rfl
      · rename_i child hlast
        rw [hchildren] at hlast
        cases hlast
  | apply op operands ih =>
      obtain ⟨hchildren, hoperands⟩ := childrenAt_of_begins (begins_iff_all.1 h)
      rw [childrenAt_eq hi, Term.operands] at hchildren
      rw [Term.operands, List.append_nil] at hoperands
      rw [subtreeEnd]
      split
      · rename_i hlast
        rw [List.getLast?_eq_none_iff, hchildren, ← List.length_eq_zero_iff,
          Term.length_starts, List.length_eq_zero_iff] at hlast
        subst hlast
        rfl
      · rename_i child hlast
        obtain rfl | ⟨front, last, rfl⟩ := List.eq_nil_or_concat' operands
        · rw [hchildren] at hlast
          cases hlast
        · have hbegins := begins_iff_all.2 (begins_of_append hoperands)
          have hchild : child = (base + 1 + sizeOfAll front : Nat) := by
            rw [hchildren, Term.starts_append, starts, starts, List.getLast?_append] at hlast
            exact (Option.some.inj hlast).symm
          subst hchild
          have hend := ih last (by simp) hbegins (by
            have := hbegins.size_le
            have := last.size_pos
            omega)
          refine hend.trans ?_
          simp only [Term.size, Term.sizeOfAll_append, sizeOfAll]
          omega

/-! ## Levels -/

theorem level_starts {distance : Nat} {operands : List (Term (Leaf α))}
    (h : ∀ term ∈ operands, ∀ {base}, t.Begins base term →
      t.nodes.level base distance = Term.placesAt distance base term.distances)
    (hbegins : nodesOfAll Leaf.node base operands <+: (t.nodes.toList.drop base).map Node.plain) :
    (starts base operands).flatMap (fun child => t.nodes.level child distance) =
      Term.placesAt distance base (Term.distancesOfAll operands) := by
  induction operands generalizing base with
  | nil => rfl
  | cons term rest ih =>
      obtain ⟨hfirst, hrest⟩ := begins_of_cons hbegins
      rw [starts, List.flatMap_cons, h term (by simp) hfirst,
        ih (fun u hu => h u (by simp [hu])) hrest, Term.distancesOfAll, Term.placesAt_append,
        Term.length_distances]

theorem level_eq (h : t.Begins base term) (distance : Nat) :
    t.nodes.level base distance = Term.placesAt distance base term.distances := by
  rw [Term.distances_eq, Term.placesAt_cons]
  induction distance generalizing base term with
  | zero => rw [if_pos rfl, Term.placesAt_zero_map_succ, Arena.level]
  | succ distance ih =>
      obtain ⟨hchildren, hoperands⟩ := childrenAt_of_begins (begins_iff_all.1 h)
      rw [List.append_nil] at hoperands
      rw [if_neg (by omega), Term.placesAt_succ_map_succ, Arena.level_succ, hchildren]
      refine level_starts ?_ hoperands
      intro operand _ base hbegins
      rw [ih hbegins, Term.distances_eq operand, Term.placesAt_cons]

theorem leads_iff (h : t.Begins base term) {distance : Nat} {place : Int} :
    t.nodes.Leads base distance place ↔
      ∃ k, place = (base + k : Nat) ∧ term.distances[k]? = some distance := by
  rw [← Arena.mem_level_iff, level_eq h, Term.mem_placesAt_iff]

/-! ## Depths -/

theorem lt_foldl_max_iff {distance first : Nat} {depths : List Nat} :
    distance < depths.foldl max first ↔ distance < first ∨ ∃ depth ∈ depths, distance < depth := by
  induction depths generalizing first with
  | nil => simp
  | cons depth rest ih => simp [ih, or_assoc]

theorem leads_succ_iff {i : Nat} (hi : i < t.size) {distance : Nat} {place : Int} :
    t.nodes.Leads i (distance + 1) place ↔
      ∃ child ∈ (t.node i hi).children, t.nodes.Leads child distance place := by
  simp only [← Arena.mem_level_iff, Arena.level_succ, childrenAt_eq hi, List.mem_flatMap]

theorem exists_leads_iff {i : Nat} (hi : i < t.size) {distance : Nat} :
    (∃ place, t.nodes.Leads i distance place) ↔ distance < t.depthAt i hi := by
  induction i, hi using place_induction generalizing distance with
  | node i hi ih =>
      rw [depthAt_eq hi, depthOver]
      cases distance with
      | zero => exact iff_of_true ⟨i, .here⟩ (by omega)
      | succ distance =>
          have hchild : ∀ child (hmem : child ∈ (t.node i hi).children),
              (∃ place, t.nodes.Leads child distance place) ↔
                distance < t.depthAt child.toNat (t.lt_child hi hmem).2 := by
            intro child hmem
            have hplace := Arena.validate_children t.valid hi child hmem
            rw [← ih child hmem, Int.toNat_of_nonneg (by omega)]
          simp only [Nat.add_comm 1, Nat.add_lt_add_iff_right, lt_foldl_max_iff, Nat.not_lt_zero,
            false_or, leads_succ_iff hi]
          constructor
          · intro h
            obtain ⟨place, child, hmem, hplace⟩ := h
            exact ⟨_, List.mem_map.2 ⟨⟨child, hmem⟩, List.mem_attach _ _, rfl⟩,
              (hchild child hmem).1 ⟨place, hplace⟩⟩
          · intro h
            obtain ⟨depth, hdepth, hlt⟩ := h
            obtain ⟨⟨child, hmem⟩, -, rfl⟩ := List.mem_map.1 hdepth
            obtain ⟨place, hplace⟩ := (hchild child hmem).2 hlt
            exact ⟨place, child, hmem, hplace⟩

/-! ## Breadth first -/

theorem mem_places_iff {first count : Nat} {place : Int} :
    place ∈ (List.range' first count).map (Nat.cast : Nat → Int) ↔
      (first : Int) ≤ place ∧ place < (first + count : Nat) := by
  simp only [List.mem_map, List.mem_range'_1]
  constructor
  · intro h
    obtain ⟨i, hi, rfl⟩ := h
    omega
  · intro h
    exact ⟨place.toNat, by omega, by omega⟩

theorem exists_distance_iff (h : t.Begins base term) {place : Int} :
    (∃ distance, t.nodes.Leads base distance place) ↔
      (base : Int) ≤ place ∧ place < (base + term.size : Nat) := by
  simp only [leads_iff h]
  constructor
  · intro hleads
    obtain ⟨distance, k, rfl, hdistance⟩ := hleads
    obtain ⟨hk, -⟩ := List.getElem?_eq_some_iff.1 hdistance
    rw [Term.length_distances] at hk
    omega
  · intro hplace
    have hk : (place - base).toNat < term.distances.length := by
      rw [Term.length_distances]
      omega
    exact ⟨_, (place - base).toNat, by omega, List.getElem?_eq_getElem hk⟩

theorem leads_unique (h : t.Begins base term) {place : Int} {near far : Nat}
    (hnear : t.nodes.Leads base near place) (hfar : t.nodes.Leads base far place) :
    near = far := by
  obtain ⟨k, rfl, hk⟩ := (leads_iff h).1 hnear
  obtain ⟨k', hplace, hk'⟩ := (leads_iff h).1 hfar
  obtain rfl : k = k' := by omega
  exact Option.some.inj (hk.symm.trans hk')

theorem pairwise_levels (h : t.Begins base term) (count : Nat) :
    ((List.range count).flatMap (t.nodes.level base)).Pairwise (t.nodes.Precedes base) := by
  rw [List.pairwise_flatMap]
  constructor
  · intro distance _
    have hsorted := Term.pairwise_placesAt distance base term.distances
    rw [← level_eq h] at hsorted
    refine hsorted.imp_of_mem ?_
    intro first second hfirst hsecond hlt
    exact ⟨distance, distance, Arena.mem_level_iff.1 hfirst, Arena.mem_level_iff.1 hsecond,
      .inr ⟨rfl, hlt⟩⟩
  · refine List.pairwise_lt_range.imp ?_
    intro near far hlt first hfirst second hsecond
    exact ⟨near, far, Arena.mem_level_iff.1 hfirst, Arena.mem_level_iff.1 hsecond, .inl hlt⟩

theorem ne_of_precedes (h : t.Begins base term) {first second : Int}
    (hprecedes : t.nodes.Precedes base first second) : first ≠ second := by
  obtain ⟨near, far, hfirst, hsecond, horder⟩ := hprecedes
  intro hsame
  subst hsame
  have := leads_unique h hfirst hsecond
  omega

theorem perm_levels (h : t.Begins base term) (hi : base < t.size) :
    ((List.range (t.depthAt base hi)).flatMap (t.nodes.level base)).Perm
      ((List.range' base term.size).map Nat.cast) := by
  have hlevels : ((List.range (t.depthAt base hi)).flatMap (t.nodes.level base)).Nodup :=
    (pairwise_levels h _).imp fun hprecedes => ne_of_precedes h hprecedes
  have hplaces : ((List.range' base term.size).map (Nat.cast : Nat → Int)).Nodup :=
    List.Nodup.map Nat.cast_injective List.nodup_range'
  rw [List.perm_ext_iff_of_nodup hlevels hplaces]
  intro place
  rw [mem_places_iff, ← exists_distance_iff h, List.mem_flatMap]
  constructor
  · intro hplace
    obtain ⟨distance, -, hplace⟩ := hplace
    exact ⟨distance, Arena.mem_level_iff.1 hplace⟩
  · intro hleads
    obtain ⟨distance, hleads⟩ := hleads
    exact ⟨distance, List.mem_range.2 ((exists_leads_iff hi).1 ⟨place, hleads⟩),
      Arena.mem_level_iff.2 hleads⟩

theorem visit_breadthFirst (h : t.Begins base term) (hi : base < t.size) :
    t.visit .breadthFirst base =
      .ok ((List.range (t.depthAt base hi)).flatMap (t.nodes.level base)) := by
  have hlength := (perm_levels h hi).length_eq
  rw [List.length_map, List.length_range'] at hlength
  have hlast : t.nodes.level base (t.depthAt base hi) = [] := by
    rw [List.eq_nil_iff_forall_not_mem]
    intro place hplace
    have := (exists_leads_iff hi).1 ⟨place, Arena.mem_level_iff.1 hplace⟩
    omega
  have hsize := h.size_le
  have hwalk := t.nodes.visitFrom_levels base (t.depthAt base hi) (t.size - term.size)
  rw [hlength, hlast, Nat.add_sub_of_le (by omega)] at hwalk
  rw [visit, if_neg (by omega), if_neg (by omega), hwalk]
  simp [Arena.visitFrom]

end Tree

/-- What the walks from a place of a tree give. The descent along last operands ends after the
subtree, whose places are those that steps from operators to operands lead to, each at one distance.
A walk depth first lists them as they stand, and one breadth first by their distances, and as they
stand where these are equal. The sweep finds one more than the greatest distance, which is the count
of those that occur. -/
theorem Tree.walks_by_distance [Scalar α] (t : Tree α) (i : Fin t.size) :
    let stop := t.subtreeEnd i i.isLt
    let places : List Int := (List.range' i (stop - i)).map Nat.cast
    EndsWith (t.nodes.DescendsTo i) (.ok stop) ∧
    (∀ place, (∃ distance, t.nodes.Leads i distance place) ↔ (i : Int) ≤ place ∧ place < stop) ∧
    (∀ place near far, t.nodes.Leads i near place → t.nodes.Leads i far place → near = far) ∧
    t.visit .depthFirst i = .ok places ∧
    EndsWith (t.nodes.Explores .depthFirst [(i : Int)]) (.ok places) ∧
    (∃ order, t.visit .breadthFirst i = .ok order ∧
      EndsWith (t.nodes.Explores .breadthFirst [(i : Int)]) (.ok order) ∧
      order.Perm places ∧ order.Pairwise (t.nodes.Precedes i)) ∧
    ∃ greatest, t.nodes.sweepDepths i = .ok (1 + greatest) ∧ t.depthAt i i.isLt = 1 + greatest ∧
      {distance | ∃ place, t.nodes.Leads i distance place} = Set.Iic greatest := by
  obtain ⟨term, hterm⟩ := exists_begins i.isLt
  intro stop places
  have hstop : stop = i + term.size := subtreeEnd_eq hterm i.isLt
  have hsize : stop - i = term.size := by omega
  have hwalk : ∀ order found, t.visit order i = .ok found →
      EndsWith (t.nodes.Explores order [(i : Int)]) (.ok found) := by
    intro order found hfound
    obtain ⟨listed, hlisted, hends⟩ := t.exists_visit order i.isLt
    rwa [← Except.ok.inj (hfound.symm.trans hlisted)] at hends
  have hdepth : t.visit .depthFirst i = .ok places := by
    rw [visit_depthFirst hterm i.isLt, ← hsize]
  have hbreadth := visit_breadthFirst hterm i.isLt
  refine ⟨t.descendsTo_subtreeEnd i.isLt, ?_, fun _ _ _ => leads_unique hterm, hdepth,
    hwalk _ _ hdepth, ⟨_, hbreadth, hwalk _ _ hbreadth, ?_, pairwise_levels hterm _⟩, ?_⟩
  · intro place
    rw [exists_distance_iff hterm, hstop]
  · have hlevels := perm_levels hterm i.isLt
    rwa [← hsize] at hlevels
  · have hpos : 0 < t.depthAt i i.isLt := (exists_leads_iff i.isLt).1 ⟨i, .here⟩
    refine ⟨t.depthAt i i.isLt - 1, ?_, by omega, ?_⟩
    · rw [t.sweepDepths_eq i.isLt]
      congr 1
      omega
    · ext distance
      rw [Set.mem_ofPred_eq, exists_leads_iff i.isLt, Set.mem_Iic]
      omega

end PrefixIntegral
