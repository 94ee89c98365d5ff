import Mathlib.Data.List.Forall2

/-!
# DocumentBase.Proofs.Collecting

Running a step that can fail on every item of a list.  The run is abandoned at the first failure, so
there are two things to say of it: with which items it fails, and how results and items pair up when
it does not.
-/

namespace DocumentBase.Collecting

variable {ε α β : Type} {step : α → Except ε β}

/-! ## One item -/

@[simp] theorem map_eq_ok_iff {ran : Except ε α} {f : α → β} {result : β} :
    ran.map f = .ok result ↔ ∃ value, ran = .ok value ∧ f value = result := by
  cases ran <;> simp [Except.map]

/-- Mapping a result makes no error and hides none. -/
@[simp] theorem map_eq_error_iff {ran : Except ε α} {f : α → β} {e : ε} :
    ran.map f = .error e ↔ ran = .error e := by
  cases ran <;> simp [Except.map]

/-! ## All items -/

/-- Collecting stops at the first item that fails. -/
theorem mapM_cons (item : α) (rest : List α) :
    (item :: rest).mapM step =
      match step item with
      | .error e => .error e
      | .ok result => (rest.mapM step).map (result :: ·) := by
  rw [List.mapM_cons]
  cases step item with
  | error e => rfl
  | ok result => cases rest.mapM step <;> rfl

/-- A step that never fails collects what it gives. -/
theorem mapM_ok (f : α → β) (items : List α) :
    items.mapM (fun item => (.ok (f item) : Except ε β)) = .ok (items.map f) := by
  induction items with
  | nil => rfl
  | cons item rest ih =>
    rw [mapM_cons, ih]
    rfl

/-- The results of a run are those of the items, one by one. -/
theorem mapM_eq_ok_iff {items : List α} {results : List β} :
    items.mapM step = .ok results ↔
      List.Forall₂ (fun item result => step item = .ok result) items results := by
  induction items generalizing results with
  | nil =>
    rw [List.mapM_nil, List.forall₂_nil_left_iff]
    exact ⟨fun h => (Except.ok.inj h).symm, fun h => h ▸ rfl⟩
  | cons item rest ih =>
    rw [mapM_cons, List.forall₂_cons_left_iff]
    cases first : step item with
    | error e => simp
    | ok result =>
      cases others : rest.mapM step with
      | error e =>
        have none (results : List β) := (@ih results).not.1 (by simp [others])
        simp [Except.map, none]
      | ok found =>
        have tail := ih.1 others
        constructor
        · intro h
          cases h
          exact ⟨result, found, rfl, tail, rfl⟩
        · rintro ⟨result', found', same, tail', rfl⟩
          cases same
          rw [ih.2 tail'] at others
          cases others
          rfl

/-- A run that succeeds has a result for every item. -/
theorem ok_of_mapM_eq_ok {items : List α} {results : List β} (h : items.mapM step = .ok results)
    {item : α} (held : item ∈ items) : ∃ result, step item = .ok result := by
  rw [mapM_eq_ok_iff] at h
  induction h with
  | nil => cases held
  | cons first _ ih =>
    rcases List.mem_cons.1 held with rfl | held
    · exact ⟨_, first⟩
    · exact ih held

/-- The failure of a run is that of one of the items. -/
theorem exists_of_mapM_eq_error {items : List α} {e : ε} (h : items.mapM step = .error e) :
    ∃ item ∈ items, step item = .error e := by
  induction items with
  | nil => cases h
  | cons item rest ih =>
    rw [mapM_cons] at h
    split at h
    · next e' failed =>
      cases h
      exact ⟨item, List.mem_cons_self, failed⟩
    · next result first =>
      cases others : rest.mapM step with
      | error e' =>
        rw [others] at h
        cases h
        obtain ⟨other, held, failed⟩ := ih others
        exact ⟨other, List.mem_cons_of_mem _ held, failed⟩
      | ok found =>
        rw [others] at h
        cases h

/-- A run fails exactly when one of the items does. -/
theorem mapM_error_iff {items : List α} :
    (∃ e, items.mapM step = .error e) ↔ ∃ item ∈ items, ∃ e, step item = .error e := by
  constructor
  · rintro ⟨e, failed⟩
    obtain ⟨item, held, h⟩ := exists_of_mapM_eq_error failed
    exact ⟨item, held, e, h⟩
  · rintro ⟨item, held, e, failed⟩
    cases run : items.mapM step with
    | error e' => exact ⟨e', rfl⟩
    | ok results =>
      obtain ⟨result, h⟩ := ok_of_mapM_eq_ok run held
      rw [failed] at h
      cases h

/-- The results of a run are what its items give. -/
theorem mem_iff_of_mapM_eq_ok {items : List α} {results : List β}
    (h : items.mapM step = .ok results) {result : β} :
    result ∈ results ↔ ∃ item ∈ items, step item = .ok result := by
  rw [mapM_eq_ok_iff] at h
  induction h with
  | nil => simp
  | cons first _ ih =>
    rw [List.mem_cons, ih]
    constructor
    · rintro (rfl | ⟨item, held, found⟩)
      · exact ⟨_, List.mem_cons_self, first⟩
      · exact ⟨item, List.mem_cons_of_mem _ held, found⟩
    · rintro ⟨item, held, found⟩
      rcases List.mem_cons.1 held with rfl | held
      · rw [first] at found
        exact .inl (Except.ok.inj found).symm
      · exact .inr ⟨item, held, found⟩

end DocumentBase.Collecting
