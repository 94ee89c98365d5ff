/-!
# DocumentBase.Fields

Fields of an object: values under distinct names, kept in ascending order of the names.  Names are
ordered by code point, which is also the order of their UTF-8 bytes, so two objects with the same
fields are the same list and are written the same way.
-/

namespace DocumentBase.Fields

/-- The names ascend strictly: each occurs once. -/
def Ascending (fields : List (String × α)) : Prop := fields.Pairwise fun a b => a.1 < b.1

/-- Put a value under a name, in place of the value that the name had. -/
def insert (name : String) (value : α) : List (String × α) → List (String × α)
  | [] => [(name, value)]
  | (n, v) :: rest =>
    if name < n then (name, value) :: (n, v) :: rest
    else if n < name then (n, v) :: insert name value rest
    else (name, value) :: rest

/-- The value under a name. -/
def find? (name : String) (fields : List (String × α)) : Option α := fields.lookup name

/-- The fields that a list of entries makes: of a repeated name the last entry stays. -/
def ofEntries (entries : List (String × α)) : List (String × α) :=
  entries.foldl (fun fields entry => insert entry.1 entry.2 fields) []

/-! ## Lemmas -/

theorem ascending_nil : Ascending ([] : List (String × α)) := List.Pairwise.nil

/-- A name of the result is the inserted one or was there before. -/
theorem mem_insert {name : String} {value : α} {fields : List (String × α)} {entry : String × α}
    (h : entry ∈ insert name value fields) : entry = (name, value) ∨ entry ∈ fields := by
  induction fields with
  | nil => simpa [insert] using h
  | cons head rest ih => grind [insert]

/-- What entries make are some of them. -/
theorem mem_ofEntries {entries : List (String × α)} {entry : String × α}
    (h : entry ∈ ofEntries entries) : entry ∈ entries := by
  suffices ∀ fields : List (String × α),
      entry ∈ entries.foldl (fun fields entry => insert entry.1 entry.2 fields) fields →
        entry ∈ fields ∨ entry ∈ entries by
    simpa using this [] h
  clear h
  induction entries with
  | nil => exact fun _ held => .inl held
  | cons first rest ih =>
    intro fields held
    rcases ih _ held with made | later
    · rcases mem_insert made with rfl | before
      · exact .inr List.mem_cons_self
      · exact .inl before
    · exact .inr (List.mem_cons_of_mem _ later)

/-- A field takes its place in the order of the names, and replaces the one of its name. -/
theorem ascending_insert {name : String} {value : α} {fields : List (String × α)}
    (h : Ascending fields) : Ascending (insert name value fields) := by
  induction fields with
  | nil => simp [insert, Ascending]
  | cons head rest ih =>
    obtain ⟨n, v⟩ := head
    simp only [Ascending, List.pairwise_cons] at h ih ⊢
    simp only [insert]
    split
    · simp only [List.pairwise_cons, List.mem_cons]
      grind
    · split
      · refine List.pairwise_cons.2 ⟨fun entry hm => ?_, ih h.2⟩
        rcases mem_insert hm with rfl | hm
        · assumption
        · exact h.1 entry hm
      · simp only [List.pairwise_cons]
        grind

/-- Fields are in order, and no two of them have one name, whatever the entries were. -/
theorem ascending_ofEntries (entries : List (String × α)) : Ascending (ofEntries entries) := by
  suffices ∀ fields : List (String × α), Ascending fields →
      Ascending (entries.foldl (fun fields entry => insert entry.1 entry.2 fields) fields) from
    this [] ascending_nil
  induction entries with
  | nil => exact fun _ h => h
  | cons entry rest ih => exact fun _ h => ih _ (ascending_insert h)

/-- What a name holds after an insertion. -/
theorem find?_insert (name other : String) (value : α) (fields : List (String × α)) :
    find? other (insert name value fields) =
      if other = name then some value else find? other fields := by
  induction fields with
  | nil => grind [insert, find?]
  | cons head rest ih => grind [insert, find?]

theorem mem_of_find? {name : String} {value : α} {fields : List (String × α)}
    (found : find? name fields = some value) : (name, value) ∈ fields := by
  obtain ⟨front, rest, same, -⟩ := List.lookup_eq_some_iff.1 found
  simp [same]

/-- Among distinct keys an entry is found exactly under its own key. -/
theorem lookup_eq_some_iff [BEq K] [LawfulBEq K] {entries : List (K × V)}
    (nodup : (entries.map Prod.fst).Nodup) {key : K} {value : V} :
    entries.lookup key = some value ↔ (key, value) ∈ entries := by
  induction entries with
  | nil => simp
  | cons head rest ih =>
    obtain ⟨k, v⟩ := head
    simp only [List.map_cons, List.nodup_cons, List.mem_map, not_exists, not_and] at nodup
    have := ih nodup.2
    grind

/-- A name is found exactly where it stands, for no two fields have one name. -/
theorem find?_eq_some_iff {fields : List (String × α)} (h : Ascending fields) {name : String}
    {value : α} : find? name fields = some value ↔ (name, value) ∈ fields :=
  lookup_eq_some_iff (List.pairwise_map.2 (h.imp String.ne_of_lt))

/-- Ascending fields are determined by what their names hold. -/
theorem ext {fields others : List (String × α)} (h : Ascending fields) (h' : Ascending others)
    (same : ∀ name, find? name fields = find? name others) : fields = others := by
  have nodup {fields : List (String × α)} (h : Ascending fields) : fields.Nodup :=
    h.imp fun before equal => String.ne_of_lt before (congrArg Prod.fst equal)
  have perm : fields.Perm others := (List.perm_ext_iff_of_nodup (nodup h) (nodup h')).2
    fun (name, value) => by rw [← find?_eq_some_iff h, ← find?_eq_some_iff h', same]
  exact perm.eq_of_pairwise
    (fun _ _ _ _ before behind => (String.lt_asymm before behind).elim) h h'

/-- What a list of entries with different names holds. -/
theorem find?_foldl_insert {entries : List (String × α)} (nodup : (entries.map Prod.fst).Nodup)
    (fields : List (String × α)) (name : String) :
    find? name (entries.foldl (fun fields entry => insert entry.1 entry.2 fields) fields)
      = (entries.lookup name).or (find? name fields) := by
  induction entries generalizing fields with
  | nil => rfl
  | cons entry rest ih =>
    obtain ⟨n, v⟩ := entry
    rw [List.map_cons, List.nodup_cons] at nodup
    rw [List.foldl_cons, ih nodup.2, find?_insert]
    by_cases same : name = n
    · subst same
      have absent : rest.lookup name = none := by
        rw [List.lookup_eq_none_iff]
        intro entry he
        have other : entry.1 ≠ name := fun eq => nodup.1 (List.mem_map.2 ⟨entry, he, eq⟩)
        simpa using Ne.symm other
      rw [absent, if_pos rfl, List.lookup_cons_self]
      rfl
    · have differ : (name == n) = false := by simpa using same
      rw [if_neg same, List.lookup_cons, differ]

/-- Ascending fields are made of their entries in any order. -/
theorem ofEntries_perm {fields entries : List (String × α)} (ascending : Ascending fields)
    (perm : fields.Perm entries) : ofEntries entries = fields := by
  have nodup_fields : (fields.map Prod.fst).Nodup :=
    List.pairwise_map.2 (ascending.imp String.ne_of_lt)
  have nodup : (entries.map Prod.fst).Nodup := (perm.map Prod.fst).nodup_iff.1 nodup_fields
  refine ext (ascending_ofEntries entries) ascending fun name => ?_
  rw [ofEntries, find?_foldl_insert nodup]
  refine Option.ext fun value => ?_
  rw [find?_eq_some_iff ascending, perm.mem_iff, ← lookup_eq_some_iff nodup]
  simp [find?]

/-! ## Values changed under their names -/

/-- What is done to a list entry by entry is a map. -/
theorem eq_map {f : List α → List β} {g : α → β} (nil : f [] = [])
    (cons : ∀ entry rest, f (entry :: rest) = g entry :: f rest) (entries : List α) :
    f entries = entries.map g := by
  induction entries with
  | nil => exact nil
  | cons entry rest ih => rw [cons, ih, List.map_cons]

/-- Where a field goes does not depend on its value. -/
theorem insert_map (f : α → β) (name : String) (value : α) (fields : List (String × α)) :
    insert name (f value) (fields.map fun field => (field.1, f field.2)) =
      (insert name value fields).map fun field => (field.1, f field.2) := by
  induction fields with
  | nil => rfl
  | cons head rest ih =>
    simp only [List.map_cons, insert, ih]
    split
    · rfl
    · split <;> rfl

/-- It makes no difference whether values are changed before their fields are put in order or
after. -/
theorem ofEntries_map (f : α → β) (entries : List (String × α)) :
    ofEntries (entries.map fun entry => (entry.1, f entry.2)) =
      (ofEntries entries).map fun entry => (entry.1, f entry.2) := by
  suffices ∀ fields : List (String × α),
      entries.foldl (fun fields entry => insert entry.1 (f entry.2) fields)
          (fields.map fun field => (field.1, f field.2)) =
        (entries.foldl (fun fields entry => insert entry.1 entry.2 fields) fields).map
          fun field => (field.1, f field.2) by
    rw [ofEntries, ofEntries, List.foldl_map]
    exact this []
  induction entries with
  | nil => exact fun _ => rfl
  | cons entry rest ih =>
    intro fields
    rw [List.foldl_cons, List.foldl_cons, insert_map]
    exact ih _

end DocumentBase.Fields
