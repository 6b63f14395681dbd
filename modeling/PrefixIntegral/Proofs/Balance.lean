import PrefixIntegral.Formula.Parentheses

namespace PrefixIntegral

namespace Text

/-- The depth of open groups after one more character, unless it closes a group that is not open. -/
def nextDepth? (depth : Nat) (c : Char) : Option Nat :=
  if c = '(' then some (depth + 1)
  else if c = ')' then if depth = 0 then none else some (depth - 1)
  else some depth

/-- The depth of open groups after a text that begins at a depth, unless the text closes a group
that is not open. -/
def depthAfter? : Nat → Text → Option Nat
  | depth, [] => some depth
  | depth, c :: rest => (nextDepth? depth c).bind fun depth => depthAfter? depth rest

/-- Every group that the text opens it closes, and no other. -/
def Balanced (t : Text) : Prop := depthAfter? 0 t = some 0

theorem nextDepth?_eq_none {depth : Nat} {c : Char} :
    nextDepth? depth c = none ↔ c = ')' ∧ depth = 0 := by
  unfold nextDepth?
  split
  · simp [*]
  · split <;> simp [*]

theorem nextDepth?_add {depth after : Nat} {c : Char} (h : nextDepth? depth c = some after)
    (more : Nat) : nextDepth? (depth + more) c = some (after + more) := by
  unfold nextDepth? at h ⊢
  split at h
  · cases h
    simp [*, Nat.add_right_comm]
  · split at h
    · split at h
      · cases h
      · cases h
        rw [if_neg (by assumption), if_pos (by assumption), if_neg (by omega)]
        congr 1
        omega
    · cases h
      rw [if_neg (by assumption), if_neg (by assumption)]

theorem depthAfter?_append (depth : Nat) (first second : Text) :
    depthAfter? depth (first ++ second) =
      (depthAfter? depth first).bind fun depth => depthAfter? depth second := by
  induction first generalizing depth with
  | nil => rfl
  | cons c rest ih =>
      rw [List.cons_append, depthAfter?, depthAfter?, Option.bind_assoc]
      congr 1
      funext depth
      exact ih depth

theorem depthAfter?_add {depth after : Nat} {t : Text} (h : depthAfter? depth t = some after)
    (more : Nat) : depthAfter? (depth + more) t = some (after + more) := by
  induction t generalizing depth with
  | nil =>
      cases h
      rfl
  | cons c rest ih =>
      obtain ⟨next, hnext, hrest⟩ := Option.bind_eq_some_iff.1 h
      rw [depthAfter?, nextDepth?_add hnext more]
      exact ih hrest

theorem depthAfter?_of_plain {depth : Nat} {t : Text} (h : ∀ c ∈ t, c ≠ '(' ∧ c ≠ ')') :
    depthAfter? depth t = some depth := by
  induction t with
  | nil => rfl
  | cons c rest ih =>
      obtain ⟨hopen, hclose⟩ := h c (by simp)
      rw [depthAfter?, nextDepth?, if_neg hopen, if_neg hclose]
      exact ih fun d hd => h d (by simp [hd])

theorem Balanced.of_plain {t : Text} (h : ∀ c ∈ t, c ≠ '(' ∧ c ≠ ')') : Balanced t :=
  depthAfter?_of_plain h

theorem balanced_nil : Balanced [] := rfl

theorem Balanced.append {first second : Text} (hfirst : Balanced first)
    (hsecond : Balanced second) : Balanced (first ++ second) := by
  rw [Balanced, depthAfter?_append, hfirst]
  exact hsecond

theorem Balanced.of_append {first second : Text} (hfirst : Balanced first)
    (h : Balanced (first ++ second)) : Balanced second := by
  rw [Balanced, depthAfter?_append, hfirst] at h
  exact h

theorem Balanced.group {body : Text} (h : Balanced body) : Balanced ('(' :: body ++ [')']) := by
  have hdeep := depthAfter?_add h 1
  rw [Balanced, List.cons_append, depthAfter?, nextDepth?, if_pos rfl, Option.bind_some,
    depthAfter?_append, hdeep]
  rfl

end Text

namespace Mark

@[simp] theorem text_nil : text [] = [] := rfl

@[simp] theorem text_cons (m : Mark) (marks : List Mark) :
    text (m :: marks) = m.char :: text marks := rfl

@[simp] theorem text_append (first second : List Mark) :
    text (first ++ second) = text first ++ text second := List.map_append

@[simp] theorem length_text (marks : List Mark) : (text marks).length = marks.length :=
  List.length_map _

theorem text_placed (start : Nat) (t : Text) : text (placed start t) = t := by
  induction t generalizing start with
  | nil => rfl
  | cons c rest ih => rw [placed, text_cons, ih]

theorem text_ofText (t : Text) : text (ofText t) = t := text_placed 0 t

theorem text_eq_append {marks : List Mark} {first second : Text}
    (h : text marks = first ++ second) :
    ∃ before after, marks = before ++ after ∧ text before = first ∧ text after = second :=
  List.map_eq_append_iff.1 h

theorem text_eq_cons {marks : List Mark} {c : Char} {rest : Text} (h : text marks = c :: rest) :
    ∃ m after, marks = m :: after ∧ m.char = c ∧ text after = rest :=
  List.map_eq_cons_iff.1 h

end Mark

namespace Parentheses

open Text (nextDepth? nextDepth?_eq_none depthAfter? Balanced)

theorem checkFrom_cons (depth : Nat) (m : Mark) (rest : List Mark) :
    checkFrom depth (m :: rest) =
      match nextDepth? depth m.char with
      | none => .error (.extraClosing m.place)
      | some depth => checkFrom depth rest := by
  rw [checkFrom.eq_def, nextDepth?]
  by_cases hopen : m.char = '('
  · simp only [if_pos hopen]
  · by_cases hclose : m.char = ')'
    · simp only [if_neg hopen, if_pos hclose]
      cases depth <;> rfl
    · simp only [if_neg hopen, if_neg hclose]

theorem closeFrom_cons (depth : Nat) (m : Mark) (rest : List Mark) :
    closeFrom depth (m :: rest) =
      match nextDepth? depth m.char with
      | none => some ⟨[], m, rest⟩
      | some depth => (closeFrom depth rest).map fun g => { g with body := m :: g.body } := by
  rw [closeFrom.eq_def, nextDepth?]
  by_cases hopen : m.char = '('
  · have hclose : m.char ≠ ')' := by
      rw [hopen]
      decide
    simp only [if_pos hopen, if_neg hclose]
  · by_cases hclose : m.char = ')'
    · simp only [if_neg hopen, if_pos hclose]
      cases depth <;> rfl
    · simp only [if_neg hopen, if_neg hclose]

theorem checkFrom_iff {depth : Nat} {marks : List Mark} :
    checkFrom depth marks = .ok () ↔ depthAfter? depth (Mark.text marks) = some 0 := by
  induction marks generalizing depth with
  | nil =>
      rw [checkFrom, Mark.text_nil, depthAfter?]
      split <;> simp [*]
  | cons m rest ih =>
      rw [checkFrom_cons, Mark.text_cons, depthAfter?]
      cases nextDepth? depth m.char with
      | none => simp
      | some next => exact ih

theorem closeFrom_iff {depth : Nat} {marks : List Mark} {g : Group} :
    closeFrom depth marks = some g ↔ marks = g.body ++ g.closing :: g.after ∧
      g.closing.char = ')' ∧ depthAfter? depth (Mark.text g.body) = some 0 := by
  induction marks generalizing depth g with
  | nil => simp [closeFrom]
  | cons m rest ih =>
      obtain ⟨body, closing, after⟩ := g
      rw [closeFrom_cons]
      cases hnext : nextDepth? depth m.char with
      | none =>
          obtain ⟨hclose, rfl⟩ := nextDepth?_eq_none.1 hnext
          cases body with
          | nil => simpa [depthAfter?] using fun h _ => h ▸ hclose
          | cons first others =>
              simp only [Option.some.injEq, Group.mk.injEq, List.nil_eq, reduceCtorEq, false_and,
                false_iff, List.cons_append, List.cons.injEq]
              rintro ⟨⟨rfl, -⟩, -, hdepth⟩
              rw [Mark.text_cons, depthAfter?, hnext] at hdepth
              cases hdepth
      | some next =>
          cases body with
          | nil =>
              simp only [Option.map_eq_some_iff, Group.mk.injEq, reduceCtorEq, false_and, and_false,
                exists_false, false_iff, List.nil_append, List.cons.injEq]
              rintro ⟨⟨rfl, -⟩, hclose, hdepth⟩
              rw [Mark.text_nil, depthAfter?] at hdepth
              cases hdepth
              rw [nextDepth?_eq_none.2 ⟨hclose, rfl⟩] at hnext
              cases hnext
          | cons first others =>
              rw [Option.map_eq_some_iff]
              constructor
              · rintro ⟨inner, hinner, heq⟩
                obtain ⟨rfl, rfl, rfl⟩ := heq
                obtain ⟨rfl, hclose, hdepth⟩ := ih.1 hinner
                exact ⟨rfl, hclose, by rwa [Mark.text_cons, depthAfter?, hnext]⟩
              · rintro ⟨heq, hclose, hdepth⟩
                obtain ⟨rfl, hrest⟩ := List.cons.inj heq
                rw [Mark.text_cons, depthAfter?, hnext] at hdepth
                exact ⟨⟨others, closing, after⟩, ih.2 ⟨hrest, hclose, hdepth⟩, rfl⟩

theorem close?_iff {marks : List Mark} {g : Group} :
    close? marks = some g ↔ marks = g.body ++ g.closing :: g.after ∧
      g.closing.char = ')' ∧ Balanced (Mark.text g.body) := closeFrom_iff

end Parentheses

end PrefixIntegral
