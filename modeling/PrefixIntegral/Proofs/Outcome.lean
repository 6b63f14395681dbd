namespace PrefixIntegral

theorem map_eq_ok_iff {ε β γ : Type} {f : β → γ} {result : Except ε β} {value : γ} :
    result.map f = .ok value ↔ ∃ found, result = .ok found ∧ f found = value := by
  cases result <;> simp [Except.map]

theorem bind_of_ok {ε β γ : Type} {result : Except ε β} {value : β} (h : result = .ok value)
    (f : β → Except ε γ) : result.bind f = f value := by
  rw [h]
  rfl

theorem bind_eq_ok_iff {ε β γ : Type} {f : β → Except ε γ} {result : Except ε β} {value : γ} :
    result.bind f = .ok value ↔ ∃ found, result = .ok found ∧ f found = .ok value := by
  cases result <;> simp [Except.bind]

theorem bind_eq_error_iff {ε β γ : Type} {f : β → Except ε γ} {result : Except ε β} {fault : ε} :
    result.bind f = .error fault ↔
      result = .error fault ∨ ∃ found, result = .ok found ∧ f found = .error fault := by
  cases result <;> simp [Except.bind]

theorem mapM_eq_ok_iff {ε β γ : Type} {f : β → Except ε γ} {items : List β} {values : List γ} :
    items.mapM f = .ok values ↔ items.map f = values.map .ok := by
  induction items generalizing values with
  | nil => cases values <;> simp [pure, Except.pure]
  | cons item rest ih =>
      rw [List.mapM_cons, List.map_cons]
      cases f item with
      | error fault => cases values <;> simp [bind, Except.bind]
      | ok value =>
          cases hrest : rest.mapM f with
          | error fault =>
              cases values with
              | nil => simp [bind, Except.bind]
              | cons first others =>
                  refine iff_of_false (by simp [bind, Except.bind]) ?_
                  intro h
                  rw [ih.2 (List.cons.inj h).2] at hrest
                  cases hrest
          | ok others =>
              cases values with
              | nil => simp [bind, Except.bind, pure, Except.pure]
              | cons first more =>
                  have hmore := @ih more
                  rw [hrest, Except.ok.injEq] at hmore
                  simp [bind, Except.bind, pure, Except.pure, hmore]

theorem exists_mapM_eq_ok_iff {ε β γ : Type} {f : β → Except ε γ} {items : List β} :
    (∃ values, items.mapM f = .ok values) ↔ ∀ item ∈ items, ∃ value, f item = .ok value := by
  induction items with
  | nil => exact iff_of_true ⟨[], rfl⟩ nofun
  | cons item rest ih =>
      rw [List.forall_mem_cons, ← ih, List.mapM_cons]
      cases f item with
      | error fault => exact iff_of_false nofun fun h => nomatch h.1
      | ok value =>
          cases rest.mapM f with
          | error fault => exact iff_of_false nofun fun h => nomatch h.2
          | ok values => exact iff_of_true ⟨_, rfl⟩ ⟨⟨_, rfl⟩, _, rfl⟩

theorem mapM_id_eq_ok_iff {ε β : Type} {results : List (Except ε β)} {values : List β} :
    results.mapM id = .ok values ↔ results = values.map .ok := by
  rw [mapM_eq_ok_iff, List.map_id]

theorem mapM_id_map {ε β γ : Type} (f : β → γ) (results : List (Except ε β)) :
    (results.map (Except.map f)).mapM id = (results.mapM id).map (List.map f) := by
  induction results with
  | nil => rfl
  | cons result rest ih =>
      rw [List.map_cons, List.mapM_cons, List.mapM_cons, ih]
      cases result with
      | error fault => rfl
      | ok value => cases rest.mapM id <;> rfl

theorem mapM_id_mapError {ε φ β : Type} (f : ε → φ) (results : List (Except ε β)) :
    (results.map (Except.mapError f)).mapM id = (results.mapM id).mapError f := by
  induction results with
  | nil => rfl
  | cons result rest ih =>
      rw [List.map_cons, List.mapM_cons, List.mapM_cons, ih]
      cases result with
      | error fault => rfl
      | ok value => cases rest.mapM id <;> rfl

theorem bind_assoc {ε β γ δ : Type} (result : Except ε β) (f : β → Except ε γ)
    (g : γ → Except ε δ) : (result.bind f).bind g = result.bind fun value => (f value).bind g := by
  cases result <;> rfl

theorem map_eq_error_iff {ε β γ : Type} {f : β → γ} {result : Except ε β} {fault : ε} :
    result.map f = .error fault ↔ result = .error fault := by
  cases result <;> simp [Except.map]

/-- Where the fault of a step does not depend on what has been accumulated, the fault of a fold does
not depend on what it starts from. -/
theorem foldlM_error_iff {ε β γ : Type} {f : β → γ → Except ε β}
    (hstep : ∀ b b' item fault, f b item = .error fault → f b' item = .error fault)
    (items : List γ) (b b' : β) (fault : ε) :
    items.foldlM f b = .error fault ↔ items.foldlM f b' = .error fault := by
  induction items generalizing b b' with
  | nil => exact iff_of_false nofun nofun
  | cons item rest ih =>
      rw [List.foldlM_cons, List.foldlM_cons]
      cases hb : f b item with
      | error found => rw [hstep b b' item found hb]
      | ok value =>
          cases hb' : f b' item with
          | error found =>
              rw [hstep b' b item found hb'] at hb
              cases hb
          | ok value' => exact ih value value'

theorem foldlM_commute {ε β γ : Type} {f : β → γ → Except ε β} {change : β → β}
    (hstep : ∀ b item, f (change b) item = (f b item).map change) (items : List γ) (b : β) :
    items.foldlM f (change b) = (items.foldlM f b).map change := by
  induction items generalizing b with
  | nil => rfl
  | cons item rest ih =>
      rw [List.foldlM_cons, List.foldlM_cons, hstep]
      cases f b item with
      | error fault => rfl
      | ok value => exact ih value

end PrefixIntegral
