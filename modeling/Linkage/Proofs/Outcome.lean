/-
Outcomes of computations that may fail: what the success of a composed
computation says about its parts.
-/

namespace Linkage

theorem bind_eq_ok {ε α β : Type} {outcome : Except ε α} {next : α → Except ε β} {b : β}
    (h : (outcome >>= next) = .ok b) : ∃ a, outcome = .ok a ∧ next a = .ok b := by
  cases outcome with
  | error error => simp [bind, Except.bind] at h
  | ok a => exact ⟨a, rfl, h⟩

theorem bind_pure_eq_ok {ε α β : Type} {outcome : Except ε α} {view : α → β} {b : β}
    (h : (outcome >>= fun a => pure (view a)) = .ok b) : ∃ a, outcome = .ok a ∧ view a = b := by
  obtain ⟨a, houtcome, h⟩ := bind_eq_ok h
  exact ⟨a, houtcome, Except.ok.inj h⟩

theorem bind_of_eq_ok {ε α β : Type} {outcome : Except ε α} {next : α → Except ε β} {a : α}
    (h : outcome = .ok a) : (outcome >>= next) = next a := by
  rw [h]
  rfl

theorem map_eq_ok {ε α β : Type} {outcome : Except ε α} {view : α → β} {b : β}
    (h : outcome.map view = .ok b) : ∃ a, outcome = .ok a ∧ view a = b := by
  cases outcome with
  | error error => simp [Except.map] at h
  | ok a => exact ⟨a, rfl, by simpa [Except.map] using h⟩

theorem map_eq_error {ε α β : Type} {outcome : Except ε α} {view : α → β} {e : ε}
    (h : outcome.map view = .error e) : outcome = .error e := by
  cases outcome with
  | error error => simpa [Except.map] using h
  | ok a => simp [Except.map] at h

@[simp] theorem mapError_ok {ε η α : Type} (view : ε → η) (a : α) :
    (Except.ok a : Except ε α).mapError view = .ok a := rfl

@[simp] theorem mapError_error {ε η α : Type} (view : ε → η) (error : ε) :
    (Except.error error : Except ε α).mapError view = .error (view error) := rfl

theorem mapError_eq_ok {ε η α : Type} {outcome : Except ε α} {view : ε → η} {a : α}
    (h : outcome.mapError view = .ok a) : outcome = .ok a := by
  cases outcome with
  | error error => simp at h
  | ok b => simpa using h

/-- What a list of successes holds are the successes of the items. -/
theorem mem_of_mapM_eq_ok {ε α β : Type} {f : α → Except ε β} {items : List α}
    {found : List β} (h : items.mapM f = .ok found) {b : β} :
    b ∈ found ↔ ∃ item ∈ items, f item = .ok b := by
  induction items generalizing found with
  | nil =>
      simp only [List.mapM_nil, pure, Except.pure, Except.ok.injEq] at h
      simp [← h]
  | cons item rest ih =>
      rw [List.mapM_cons] at h
      obtain ⟨first, hfirst, h⟩ := bind_eq_ok h
      obtain ⟨others, hothers, rfl⟩ := bind_pure_eq_ok h
      rw [List.mem_cons, ih hothers]
      simp only [List.mem_cons, exists_eq_or_imp, hfirst, Except.ok.injEq]
      rw [eq_comm]

/-- A list of successes has one for every item. -/
theorem exists_of_mapM_eq_ok {ε α β : Type} {f : α → Except ε β} {items : List α}
    {found : List β} (h : items.mapM f = .ok found) {item : α} (hmem : item ∈ items) :
    ∃ b, f item = .ok b := by
  induction items generalizing found with
  | nil => simp at hmem
  | cons head rest ih =>
      rw [List.mapM_cons] at h
      obtain ⟨first, hfirst, h⟩ := bind_eq_ok h
      obtain ⟨others, hothers, h⟩ := bind_eq_ok h
      rcases List.mem_cons.mp hmem with rfl | hrest
      · exact ⟨first, hfirst⟩
      · exact ih hothers hrest

/-- Where every item succeeds the list does. -/
theorem mapM_of_eq_ok {ε α β : Type} {f : α → Except ε β} {view : α → β} {items : List α}
    (h : ∀ item ∈ items, f item = .ok (view item)) : items.mapM f = .ok (items.map view) := by
  induction items with
  | nil => rfl
  | cons item rest ih =>
      rw [List.forall_mem_cons] at h
      rw [List.mapM_cons, bind_of_eq_ok h.1, bind_of_eq_ok (ih h.2)]
      rfl

/-- What a list of successes shows, item by item. -/
theorem flatMap_of_mapM_eq_ok {ε α β γ : Type} {f : α → Except ε β} {view : β → List γ}
    {shown : α → List γ} {items : List α} {found : List β} (h : items.mapM f = .ok found)
    (hview : ∀ item ∈ items, ∀ b, f item = .ok b → view b = shown item) :
    found.flatMap view = items.flatMap shown := by
  induction items generalizing found with
  | nil =>
      simp only [List.mapM_nil, pure, Except.pure, Except.ok.injEq] at h
      rw [← h]
      rfl
  | cons item rest ih =>
      rw [List.mapM_cons] at h
      obtain ⟨first, hfirst, h⟩ := bind_eq_ok h
      obtain ⟨others, hothers, rfl⟩ := bind_pure_eq_ok h
      have hrest := ih hothers (fun other hother => hview other (List.mem_cons_of_mem item hother))
      rw [List.flatMap_cons, List.flatMap_cons, hrest,
        hview item List.mem_cons_self first hfirst]

/-- What every step preserves holds after all steps have succeeded. -/
theorem foldlM_preserves {ε α σ : Type} {step : σ → α → Except ε σ} {holds : σ → Prop}
    {items : List α} (hstep : ∀ state, ∀ item ∈ items, holds state →
      ∀ next, step state item = .ok next → holds next)
    {state final : σ} (h : items.foldlM step state = .ok final) (hstate : holds state) :
    holds final := by
  induction items generalizing state with
  | nil =>
      cases h
      exact hstate
  | cons item rest ih =>
      rw [List.foldlM_cons] at h
      obtain ⟨next, hnext, h⟩ := bind_eq_ok h
      exact ih (fun state other hother => hstep state other (List.mem_cons_of_mem item hother)) h
        (hstep state item List.mem_cons_self hstate next hnext)

/-- Adding to a state item by item is adding what all items add, if the view of the state
grows by the views of what they add. -/
theorem foldlM_view {ε α β σ γ : Type} (view : σ → List γ) (image : β → γ)
    (step : σ → α → Except ε σ) (parts : α → Except ε (List β))
    (hstep : ∀ state item, (step state item).map view =
      (parts item).map (fun part => view state ++ part.map image))
    (items : List α) (state : σ) :
    (items.foldlM step state).map view =
      (items.mapM parts).map (fun found => view state ++ found.flatten.map image) := by
  induction items generalizing state with
  | nil => simp [Except.map, pure, Except.pure]
  | cons item rest ih =>
      have hitem := hstep state item
      rw [List.foldlM_cons, List.mapM_cons]
      cases hparts : parts item with
      | error error =>
          rw [hparts] at hitem
          rw [map_eq_error hitem]
          rfl
      | ok part =>
          rw [hparts] at hitem
          obtain ⟨next, hnext, hview⟩ := map_eq_ok hitem
          have hrest := ih next
          rw [hview] at hrest
          simp only [hnext, bind, Except.bind]
          rw [hrest]
          cases rest.mapM parts <;> simp [Except.map, pure, Except.pure]

end Linkage
