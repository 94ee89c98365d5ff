import DocumentBase.Proofs.Index.Coverage

/-!
# DocumentBase.Proofs.Index.Paths

The keys of a document are those of the paths that lead to a scalar in it, no more and no fewer
(`keys_of_resolved_paths`).

Leaves and paths go through a document in opposite ways: a path is followed from the outside in, the
leaves of an object are seen from its fields out.  They meet because the names of an object are
distinct, so that whatever stands in a field is what its name leads to (`mem_leaves_iff`).

The keys can also be collected on a walk that carries the key of the object it is in.  The name of a
field is put behind that key and a point, unless there is no such key; an empty key is not the same
as none.  The fields of an object may be visited in any order, and the keys are the same
(`walks_iff`).
-/

namespace DocumentBase

/-! ## Leaves and paths -/

namespace Value

/-- Whether the value is null, a boolean, a number or a string. -/
def isScalar : Value → Bool
  | null | bool _ | number _ | string _ => true
  | array _ | object _ => false

/-- Scalars are what has a text. -/
theorem isScalar_iff {value : Value} : value.isScalar ↔ ∃ text, value.leafText? = some text := by
  cases value <;> simp [isScalar, leafText?]

/-- A leaf of some fields is a leaf of one field's value, with that field's name in front. -/
theorem mem_fieldsLeaves_iff {fields : List (String × Value)} {leaf : Leaf} :
    leaf ∈ fieldsLeaves fields ↔
      ∃ name value, (name, value) ∈ fields ∧ ∃ inner ∈ value.leaves, inner.under name = leaf := by
  constructor
  · intro held
    induction fields with
    | nil => cases held
    | cons head rest ih =>
      obtain ⟨name, value⟩ := head
      rw [fieldsLeaves, List.mem_append, List.mem_map] at held
      rcases held with here | held
      · exact ⟨name, value, List.mem_cons_self, here⟩
      · obtain ⟨other, value', field, inner⟩ := ih held
        exact ⟨other, value', List.mem_cons_of_mem _ field, inner⟩
  · rintro ⟨name, value, field, inner, held, rfl⟩
    exact under_mem_fieldsLeaves field held

/-- A leaf of some fields is below one of them. -/
theorem path_ne_nil_of_mem_fieldsLeaves {fields : List (String × Value)} {leaf : Leaf}
    (held : leaf ∈ fieldsLeaves fields) : leaf.path ≠ [] := by
  obtain ⟨name, _, _, inner, _, rfl⟩ := mem_fieldsLeaves_iff.1 held
  exact List.cons_ne_nil name inner.path

/-- Which leaves some fields have does not depend on their order. -/
theorem mem_fieldsLeaves_perm {fields others : List (String × Value)} (order : fields.Perm others)
    (leaf : Leaf) : leaf ∈ fieldsLeaves others ↔ leaf ∈ fieldsLeaves fields := by
  simp only [mem_fieldsLeaves_iff, order.mem_iff]

/-- The path of a leaf leads to a scalar with the text of the leaf. -/
theorem resolve_of_mem_fieldsLeaves {fields : List (String × Value)} {path : List String}
    {text : String} (ordered : (object fields).Ordered)
    (held : ⟨path, text⟩ ∈ fieldsLeaves fields) :
    ∃ value, resolve fields path = some value ∧ value.leafText? = some text := by
  induction path generalizing fields with
  | nil =>
    obtain ⟨_, _, _, _, _, under⟩ := mem_fieldsLeaves_iff.1 held
    cases under
  | cons name rest ih =>
    obtain ⟨_, value, field, ⟨path, _⟩, inner, under⟩ := mem_fieldsLeaves_iff.1 held
    simp only [Leaf.under, Leaf.mk.injEq, List.cons.injEq] at under
    obtain ⟨⟨rfl, rfl⟩, rfl⟩ := under
    rw [Ordered] at ordered
    -- Names are distinct, so no other field of the name comes before this one.
    have found := (Fields.find?_eq_some_iff ordered.1).2 field
    cases value with
    | array items => cases inner
    | object fields' =>
      rw [leaves] at inner
      obtain ⟨value, there, scalar⟩ := ih (orderedFields_iff.1 ordered.2 _ field) inner
      cases path with
      | nil => cases there
      | cons next rest =>
        refine ⟨value, ?_, scalar⟩
        rw [resolve, found]
        exact there
    | null | bool _ | number _ | string _ =>
      obtain ⟨rfl, rfl⟩ := by simpa [leaves] using inner
      exact ⟨_, found, rfl⟩

/-- A path is followed beyond an object, and nowhere else. -/
theorem resolve_append (fields : List (String × Value)) {path : List String} (nonempty : path ≠ [])
    (name : String) (rest : List String) :
    resolve fields (path ++ name :: rest) =
      match resolve fields path with
      | some (object inner) => resolve inner (name :: rest)
      | _ => none := by
  induction path generalizing fields with
  | nil => exact absurd rfl nonempty
  | cons first path ih =>
    cases path with
    | nil => rfl
    | cons next path =>
      simp only [List.cons_append, resolve]
      cases Fields.find? first fields with
      | none => rfl
      | some value =>
        cases value with
        | object inner => exact ih inner (List.cons_ne_nil next path)
        | null | bool _ | number _ | string _ | array _ => rfl

end Value

namespace Document

variable {doc : Document} {path : List String} {text : String}

theorem ne_nil_of_resolve {value : Value} (found : doc.resolve path = some value) : path ≠ [] := by
  rintro rfl
  cases found

/-- The leaves of a document are where paths lead to scalars. -/
theorem mem_leaves_iff :
    ⟨path, text⟩ ∈ doc.leaves ↔
      ∃ value, doc.resolve path = some value ∧ value.leafText? = some text := by
  constructor
  · exact Value.resolve_of_mem_fieldsLeaves doc.ordered
  · rintro ⟨value, found, scalar⟩
    exact Value.mem_fieldsLeaves_of_resolve found scalar

/-- Lists and empty objects hold no leaves, and neither does what is in them. -/
theorem not_mem_leaves_below {value : Value} {rest : List String}
    (here : doc.resolve path = some value)
    (hollow : (∃ items, value = .array items) ∨ value = .object []) :
    ⟨path ++ rest, text⟩ ∉ doc.leaves := by
  intro leaf
  obtain ⟨found, there, scalar⟩ := mem_leaves_iff.1 leaf
  cases rest with
  | nil =>
    rw [List.append_nil, here] at there
    cases there
    rcases hollow with ⟨items, rfl⟩ | rfl <;> cases scalar
  | cons name rest =>
    rw [resolve, Value.resolve_append _ (ne_nil_of_resolve here)] at there
    rw [resolve] at here
    rw [here] at there
    rcases hollow with ⟨items, rfl⟩ | rfl
    · cases there
    · cases rest <;> cases there

/-- The existence keys of a document are those of the paths that lead to a scalar. -/
theorem mem_paths_iff {key : String} :
    key ∈ doc.indexKeys.paths.keys ↔
      ∃ path value, path ≠ [] ∧ doc.resolve path = some value ∧ value.isScalar ∧
        pathKey path = key := by
  rw [indexKeys, KeySet.mem_keys_ofList, List.mem_map]
  constructor
  · rintro ⟨⟨path, text⟩, leaf, rfl⟩
    obtain ⟨value, found, scalar⟩ := mem_leaves_iff.1 leaf
    exact ⟨path, value, ne_nil_of_resolve found, found, Value.isScalar_iff.2 ⟨text, scalar⟩, rfl⟩
  · rintro ⟨path, value, -, found, scalar, rfl⟩
    obtain ⟨text, scalar⟩ := Value.isScalar_iff.1 scalar
    exact ⟨⟨path, text⟩, mem_leaves_iff.2 ⟨value, found, scalar⟩, rfl⟩

/-- The equality keys of a document are those of the paths that lead to a scalar, with its text. -/
theorem mem_pathValues_iff {key : String} :
    key ∈ doc.indexKeys.pathValues.keys ↔
      ∃ path value text, path ≠ [] ∧ doc.resolve path = some value ∧
        value.leafText? = some text ∧ pathValueKey path text = key := by
  rw [indexKeys, KeySet.mem_keys_ofList, List.mem_map]
  constructor
  · rintro ⟨⟨path, text⟩, leaf, rfl⟩
    obtain ⟨value, found, scalar⟩ := mem_leaves_iff.1 leaf
    exact ⟨path, value, text, ne_nil_of_resolve found, found, scalar, rfl⟩
  · rintro ⟨path, value, text, -, found, scalar, rfl⟩
    exact ⟨⟨path, text⟩, mem_leaves_iff.2 ⟨value, found, scalar⟩, rfl⟩

end Document

/-! ## Walks -/

/- A walk takes the fields of an object in any order and collects keys as it goes.  Its invariant is
`Adds`: the keys that have come in are those of the leaves that it has passed, as seen from the
object it is in. -/

/-- A key put behind the key of the object it is in.  The root has no key, which is not the same as
an empty one. -/
def keyIn (front : Option String) (key : String) : String :=
  match front with
  | some front => front ++ "." ++ key
  | none => key

theorem keyIn_append (front : Option String) (key text : String) :
    keyIn front key ++ text = keyIn front (key ++ text) := by
  cases front with
  | none => rfl
  | some front => simp only [keyIn, String.append_assoc]

/-- A leaf within an object has the same key as from further out, under the name of the object. -/
theorem keyIn_key (front : Option String) (name : String) {leaf : Leaf}
    (nonempty : leaf.path ≠ []) :
    keyIn (some (keyIn front name)) leaf.key = keyIn front (leaf.under name).key := by
  obtain ⟨path, text⟩ := leaf
  cases path with
  | nil => exact absurd rfl nonempty
  | cons next rest =>
    -- The point between the first two names is the one that the inner key is put behind.
    rw [keyIn, keyIn_append, keyIn_append]
    rfl

/-- A leaf's key within an object is the leaf's key under the object's name. -/
theorem keyIn_valueKey (front : Option String) (name : String) {leaf : Leaf}
    (nonempty : leaf.path ≠ []) :
    keyIn (some (keyIn front name)) leaf.valueKey = keyIn front (leaf.under name).valueKey := by
  have keys := keyIn_key front name nonempty
  rw [Leaf.valueKey, pathValueKey, String.append_assoc, ← keyIn_append]
  rw [Leaf.valueKey, pathValueKey, String.append_assoc, ← keyIn_append]
  exact congrArg (· ++ ("=" ++ leaf.text)) keys

/-- The keys with those of a leaf more. -/
def IndexKeys.insert (keys : IndexKeys) (key text : String) : IndexKeys where
  paths := keys.paths.insert key
  pathValues := keys.pathValues.insert (key ++ "=" ++ text)

/-- Goes through fields in any order, those of an object within them too, and collects keys. -/
inductive Walks : Option String → List (String × Value) → IndexKeys → IndexKeys → Prop where
  | done {front : Option String} {keys : IndexKeys} : Walks front [] keys keys
  | object {front : Option String} {fields inner rest : List (String × Value)} {name : String}
      {keys between final : IndexKeys} (order : fields.Perm ((name, .object inner) :: rest))
      (within : Walks (some (keyIn front name)) inner keys between)
      (after : Walks front rest between final) : Walks front fields keys final
  | array {front : Option String} {fields rest : List (String × Value)} {name : String}
      {items : List Value} {keys final : IndexKeys}
      (order : fields.Perm ((name, .array items) :: rest)) (after : Walks front rest keys final) :
      Walks front fields keys final
  | scalar {front : Option String} {fields rest : List (String × Value)} {name : String}
      {value : Value} {text : String} {keys final : IndexKeys}
      (order : fields.Perm ((name, value) :: rest)) (scalar : value.leafText? = some text)
      (after : Walks front rest (keys.insert (keyIn front name) text) final) :
      Walks front fields keys final

/-- Leaves have added their keys, seen from an object that has a key itself. -/
structure Adds (front : Option String) (leaves : List Leaf) (keys final : IndexKeys) : Prop where
  paths (key : String) : key ∈ final.paths.keys ↔
    key ∈ keys.paths.keys ∨ key ∈ leaves.map fun leaf => keyIn front leaf.key
  pathValues (key : String) : key ∈ final.pathValues.keys ↔
    key ∈ keys.pathValues.keys ∨ key ∈ leaves.map fun leaf => keyIn front leaf.valueKey

namespace Adds

variable {front : Option String} {leaves others : List Leaf} {keys between final : IndexKeys}

theorem nil : Adds front [] keys keys := ⟨by simp, by simp⟩

/-- Leaves can be added in two goes. -/
theorem append (first : Adds front leaves keys between) (second : Adds front others between final) :
    Adds front (leaves ++ others) keys final where
  paths key := by rw [second.paths, first.paths, List.map_append, List.mem_append, or_assoc]
  pathValues key := by
    rw [second.pathValues, first.pathValues, List.map_append, List.mem_append, or_assoc]

/-- What is added depends on which leaves there are, not on their order or number. -/
theorem congr (adds : Adds front leaves keys final) (same : ∀ leaf, leaf ∈ leaves ↔ leaf ∈ others) :
    Adds front others keys final where
  paths key := by simp only [adds.paths, List.mem_map, same]
  pathValues key := by simp only [adds.pathValues, List.mem_map, same]

/-- A walk adds a leaf under the key that it has built up. -/
theorem leaf (front : Option String) (keys : IndexKeys) (name text : String) :
    Adds front [⟨[name], text⟩] keys (keys.insert (keyIn front name) text) where
  paths key := by
    rw [IndexKeys.insert, KeySet.mem_keys_insert, or_comm, List.map_singleton, List.mem_singleton]
    rfl
  pathValues key := by
    rw [IndexKeys.insert, KeySet.mem_keys_insert, or_comm, List.map_singleton, List.mem_singleton,
      keyIn_append, keyIn_append]
    rfl

/-- What leaves add within an object they add from further out too, under its name. -/
theorem under {name : String} (adds : Adds (some (keyIn front name)) leaves keys final)
    (nonempty : ∀ leaf ∈ leaves, leaf.path ≠ []) :
    Adds front (leaves.map (Leaf.under name)) keys final where
  paths key := by
    rw [adds.paths, List.map_map,
      List.map_congr_left fun leaf held => keyIn_key front name (nonempty leaf held)]
    rfl
  pathValues key := by
    rw [adds.pathValues, List.map_map,
      List.map_congr_left fun leaf held => keyIn_valueKey front name (nonempty leaf held)]
    rfl

end Adds

namespace Walks

open Value (fieldsLeaves)

variable {front : Option String} {fields : List (String × Value)} {keys final : IndexKeys}

/-- A walk adds the leaves of the fields, whatever order it takes. -/
theorem adds (walk : Walks front fields keys final) :
    Adds front (fieldsLeaves fields) keys final := by
  induction walk with
  | done => exact .nil
  | object order _ _ within after =>
    refine Adds.congr ?_ (Value.mem_fieldsLeaves_perm order)
    rw [fieldsLeaves, Value.leaves]
    exact (within.under fun _ => Value.path_ne_nil_of_mem_fieldsLeaves).append after
  | array order _ after =>
    refine Adds.congr ?_ (Value.mem_fieldsLeaves_perm order)
    rw [fieldsLeaves, Value.leaves]
    exact after
  | @scalar front _ _ name _ text keys _ order scalar _ after =>
    refine Adds.congr ?_ (Value.mem_fieldsLeaves_perm order)
    rw [fieldsLeaves, Value.leaves_of_leafText? scalar]
    exact (Adds.leaf front keys name text).append after

/-- The fields of every object can be walked through. -/
theorem exists_walk (front : Option String) (fields : List (String × Value)) (keys : IndexKeys) :
    ∃ final, Walks front fields keys final := by
  match fields with
  | [] => exact ⟨keys, .done⟩
  | (name, .object inner) :: rest =>
    obtain ⟨between, within⟩ := exists_walk (some (keyIn front name)) inner keys
    obtain ⟨final, after⟩ := exists_walk front rest between
    exact ⟨final, .object (.refl _) within after⟩
  | (name, .array items) :: rest =>
    obtain ⟨final, after⟩ := exists_walk front rest keys
    exact ⟨final, .array (.refl _) after⟩
  | (name, .null) :: rest | (name, .bool _) :: rest | (name, .number _) :: rest
  | (name, .string _) :: rest =>
    obtain ⟨final, after⟩ := exists_walk front rest _
    exact ⟨final, .scalar (.refl _) rfl after⟩

end Walks

namespace Document

/-- A walk through all fields of a document, from no keys to some. -/
def Walks (doc : Document) (keys : IndexKeys) : Prop :=
  DocumentBase.Walks none doc.fields ⟨.empty, .empty⟩ keys

/-- The keys of a document are what every walk through it collects. -/
theorem walks_iff {doc : Document} {keys : IndexKeys} : doc.Walks keys ↔ keys = doc.indexKeys := by
  have collects {keys : IndexKeys} (walk : doc.Walks keys) : keys = doc.indexKeys := by
    have adds := walk.adds
    obtain ⟨paths, pathValues⟩ := keys
    have samePaths : paths = doc.indexKeys.paths := KeySet.ext fun key => by
      rw [adds.paths, indexKeys, KeySet.mem_keys_ofList]
      simp [KeySet.empty, leaves, keyIn]
    have samePathValues : pathValues = doc.indexKeys.pathValues := KeySet.ext fun key => by
      rw [adds.pathValues, indexKeys, KeySet.mem_keys_ofList]
      simp [KeySet.empty, leaves, keyIn]
    rw [samePaths, samePathValues]
  refine ⟨collects, ?_⟩
  rintro rfl
  obtain ⟨final, walk⟩ := Walks.exists_walk none doc.fields ⟨.empty, .empty⟩
  rw [← collects walk]
  exact walk

/-- The keys of a document are those of the paths that lead to a scalar in it, whatever the names
are; every walk through the document collects them.  Lists and empty objects add no key, nor does
anything in them.  So the key of a clause is among the keys of every document of which it holds. -/
theorem keys_of_resolved_paths (doc : Document) :
    (∀ key, key ∈ doc.indexKeys.paths.keys ↔
      ∃ path value, path ≠ [] ∧ doc.resolve path = some value ∧ value.isScalar ∧
        pathKey path = key) ∧
    (∀ key, key ∈ doc.indexKeys.pathValues.keys ↔
      ∃ path value text, path ≠ [] ∧ doc.resolve path = some value ∧
        value.leafText? = some text ∧ pathValueKey path text = key) ∧
    (∀ keys, doc.Walks keys ↔ keys = doc.indexKeys) ∧
    (∀ path value, doc.resolve path = some value →
      (∃ items, value = .array items) ∨ value = .object [] →
      ∀ rest text, ⟨path ++ rest, text⟩ ∉ doc.leaves) ∧
    ∀ clause : Clause, clause.holds doc → clause.indexKey ∈ doc.indexKeys.toList :=
  ⟨fun _ => mem_paths_iff, fun _ => mem_pathValues_iff, fun _ => walks_iff,
    fun _ _ here hollow _ _ => not_mem_leaves_below here hollow,
    fun _ => Clause.indexKey_mem_of_holds⟩

/-- An empty name in an object with an empty name, beside a list whose name is their key. -/
def emptyNames : Document :=
  .ofFields [("", .object [("", .string "=")]), (".", .array [.string "x"])]

/-- The key is there for the string, not for the list. -/
theorem keys_of_emptyNames :
    ".==" ∈ emptyNames.indexKeys.toList ∧ ∀ text, ⟨["."], text⟩ ∉ emptyNames.leaves := by
  obtain ⟨-, -, -, hollow, clauses⟩ := keys_of_resolved_paths emptyNames
  exact ⟨clauses ⟨["", ""], .eq, "="⟩ (by decide), hollow ["."] _ rfl (.inl ⟨_, rfl⟩) []⟩

end Document

end DocumentBase
