import DocumentBase.Proofs.Index.Paths

/-!
# DocumentBase.Proofs.Index.Separators

Names without points and equals signs make keys that say everything (`keys_unambiguous`).

A key is read back from the front.  The equals sign that ends the path is the first one, whatever
the text of the leaf is, and the points before it are all between names.  So a key tells its path,
and an equality key its text too, and it tells whether it is an equality key.

On a document with such names an index key is there for the one path that it spells.  An equality
key then fails its clause only on a null, which is indexed as the text it has.
-/

namespace DocumentBase

/-! ## Reading keys back -/

/- The names of a plain path hold neither separator, so the first equals sign of a key ends its
path, and the points in front of that tell the names apart. -/

/-- A name without the two signs that separate the parts of a key. -/
def IsPlainName (name : String) : Prop := '.' ∉ name.toList ∧ '=' ∉ name.toList

instance (name : String) : Decidable (IsPlainName name) :=
  inferInstanceAs (Decidable ('.' ∉ name.toList ∧ '=' ∉ name.toList))

/-- A path of at least one name, all plain. -/
def IsPlainPath (path : List String) : Prop := path ≠ [] ∧ ∀ name ∈ path, IsPlainName name

instance (path : List String) : Decidable (IsPlainPath path) :=
  inferInstanceAs (Decidable (path ≠ [] ∧ ∀ name ∈ path, IsPlainName name))

/-- The key of a path is its names with points between them. -/
theorem pathKey_eq_intercalate (path : List String) : pathKey path = ".".intercalate path := by
  induction path with
  | nil => rw [pathKey, String.intercalate_nil]
  | cons name rest ih =>
    cases rest with
    | nil => rw [pathKey, String.intercalate_singleton]
    | cons next rest => rw [pathKey, String.intercalate_cons_cons, ih]

namespace IsPlainPath

variable {path other : List String}

/-- The names of a path are what its key holds between points. -/
theorem splitOn_pathKey (plain : IsPlainPath path) :
    (pathKey path).toList.splitOn '.' = path.map String.toList := by
  rw [pathKey_eq_intercalate, String.toList_intercalate]
  refine List.splitOn_intercalate '.' ?_ ?_
  · intro chars held
    obtain ⟨name, isName, rfl⟩ := List.mem_map.1 held
    exact (plain.2 name isName).1
  · rw [Ne, List.map_eq_nil_iff]
    exact plain.1

/-- The key of a plain path has no equals sign. -/
theorem equals_notMem_pathKey (plain : IsPlainPath path) : '=' ∉ (pathKey path).toList := by
  obtain ⟨-, plain⟩ := plain
  induction path with
  | nil => simp [pathKey]
  | cons name rest ih =>
    obtain ⟨here, plain⟩ := List.forall_mem_cons.1 plain
    cases rest with
    | nil => exact here.2
    | cons next rest => simpa [pathKey, here.2] using ih plain

/-- The key of the path is what an equality key holds before its first equals sign. -/
theorem takeWhile_pathValueKey (plain : IsPlainPath path) (text : String) :
    (pathValueKey path text).toList.takeWhile (· ≠ '=') = (pathKey path).toList := by
  -- The text may hold equals signs too, but they come later.
  have before : ∀ c ∈ (pathKey path).toList, decide (c ≠ '=') = true := by
    intro c held
    rw [decide_eq_true_eq]
    rintro rfl
    exact plain.equals_notMem_pathKey held
  rw [pathValueKey, String.toList_append, String.toList_append, List.append_assoc,
    List.takeWhile_append_of_pos before]
  simp

/-- The key of a plain path can be taken apart again, at its points. -/
theorem pathKey_inj (plain : IsPlainPath path) (plain' : IsPlainPath other) :
    pathKey path = pathKey other ↔ path = other := by
  constructor
  · intro same
    have names : path.map String.toList = other.map String.toList := by
      rw [← plain.splitOn_pathKey, ← plain'.splitOn_pathKey, same]
    exact (List.map_inj_right fun _ _ => String.toList_inj.1).1 names
  · rintro rfl
    rfl

/-- The equality key of a plain path can be taken apart again, at its first equals sign. -/
theorem pathValueKey_inj (plain : IsPlainPath path) (plain' : IsPlainPath other)
    {text text' : String} :
    pathValueKey path text = pathValueKey other text' ↔ path = other ∧ text = text' := by
  constructor
  · intro same
    have keys : pathKey path = pathKey other := by
      rw [← String.toList_inj, ← plain.takeWhile_pathValueKey text,
        ← plain'.takeWhile_pathValueKey text', same]
    rw [pathValueKey, pathValueKey, keys] at same
    exact ⟨(plain.pathKey_inj plain').1 keys, String.append_right_inj _ |>.1 same⟩
  · rintro ⟨rfl, rfl⟩
    rfl

/-- The key of a plain path is no equality key, for it has no equals sign. -/
theorem pathKey_ne_pathValueKey (plain : IsPlainPath path) (other : List String) (text : String) :
    pathKey path ≠ pathValueKey other text := by
  intro same
  have held : '=' ∈ (pathValueKey other text).toList := by simp [pathValueKey]
  rw [← same] at held
  exact plain.equals_notMem_pathKey held

end IsPlainPath

/-! ## Documents with plain names -/

namespace Value

mutual

/-- Whether the names of all objects in a value are plain.  Those in lists do not count. -/
def NamesPlain : Value → Prop
  | object fields => FieldsPlain fields
  | null | bool _ | number _ | string _ | array _ => True

/-- Whether the names of fields, and those in their values, are plain. -/
def FieldsPlain : List (String × Value) → Prop
  | [] => True
  | (name, value) :: rest => IsPlainName name ∧ value.NamesPlain ∧ FieldsPlain rest

end

theorem fieldsPlain_iff {fields : List (String × Value)} :
    FieldsPlain fields ↔ ∀ field ∈ fields, IsPlainName field.1 ∧ field.2.NamesPlain := by
  induction fields with
  | nil => simp [FieldsPlain]
  | cons head rest ih => simp [FieldsPlain, ih, and_assoc]

/-- A path that leads somewhere is made of names of the document. -/
theorem isPlainName_of_resolve {fields : List (String × Value)} (plain : FieldsPlain fields)
    {path : List String} {value : Value} (found : resolve fields path = some value) :
    ∀ name ∈ path, IsPlainName name := by
  induction path generalizing fields with
  | nil => simp
  | cons name rest ih =>
    cases rest with
    | nil =>
      have here := fieldsPlain_iff.1 plain _ (Fields.mem_of_find? found)
      simpa using here.1
    | cons next rest =>
      rw [resolve] at found
      split at found
      · next inner step =>
        have here := fieldsPlain_iff.1 plain _ (Fields.mem_of_find? step)
        exact List.forall_mem_cons.2 ⟨here.1, ih here.2 found⟩
      · cases found

end Value

namespace Document

/-- Whether the names of a document and of the objects in it are plain, lists apart. -/
def NamesPlain (doc : Document) : Prop := Value.FieldsPlain doc.fields

variable {doc : Document} {path : List String}

/-- A path that leads somewhere in a document with plain names is plain. -/
theorem NamesPlain.isPlainPath (plain : doc.NamesPlain) {value : Value}
    (found : doc.resolve path = some value) : IsPlainPath path :=
  ⟨ne_nil_of_resolve found, Value.isPlainName_of_resolve plain found⟩

/-- The existence key of a plain path stands for that path alone. -/
theorem NamesPlain.pathKey_mem_iff (plain : doc.NamesPlain) (plainPath : IsPlainPath path) :
    pathKey path ∈ doc.indexKeys.toList ↔
      ∃ value, doc.resolve path = some value ∧ value.isScalar := by
  rw [IndexKeys.toList, List.mem_append, mem_paths_iff, mem_pathValues_iff]
  constructor
  · rintro (⟨other, value, -, found, scalar, same⟩ | ⟨other, value, text, -, -, -, same⟩)
    · obtain rfl := ((plain.isPlainPath found).pathKey_inj plainPath).1 same
      exact ⟨value, found, scalar⟩
    · exact absurd same.symm (plainPath.pathKey_ne_pathValueKey other text)
  · rintro ⟨value, found, scalar⟩
    exact .inl ⟨path, value, plainPath.1, found, scalar, rfl⟩

/-- The equality key of a plain path and a text stands for that path and that text alone. -/
theorem NamesPlain.pathValueKey_mem_iff (plain : doc.NamesPlain) (plainPath : IsPlainPath path)
    {text : String} :
    pathValueKey path text ∈ doc.indexKeys.toList ↔
      ∃ value, doc.resolve path = some value ∧ value.leafText? = some text := by
  rw [IndexKeys.toList, List.mem_append, mem_paths_iff, mem_pathValues_iff]
  constructor
  · rintro (⟨other, value, -, found, -, same⟩ | ⟨other, value, text', -, found, scalar, same⟩)
    · exact absurd same ((plain.isPlainPath found).pathKey_ne_pathValueKey path text)
    · obtain ⟨rfl, rfl⟩ := ((plain.isPlainPath found).pathValueKey_inj plainPath).1 same
      exact ⟨value, found, scalar⟩
  · rintro ⟨value, found, scalar⟩
    exact .inr ⟨path, value, text, plainPath.1, found, scalar, rfl⟩

end Document

/-! ## Clauses -/

/-- A leaf with the text of the literal satisfies an equality unless it is null. -/
theorem Value.satisfies_eq_of_leafText? {value : Value} {literal : String}
    (scalar : value.leafText? = some literal) :
    value.satisfies .eq literal = false ↔ value = .null := by
  rw [satisfies, scalar]
  cases value <;> simp_all [isComparable, leafText?]

/-- Where the key of an equality is there for the right leaf, only a null fails the clause. -/
theorem Clause.holds_eq_false_iff {clause : Clause} {doc : Document} (isEq : clause.op = .eq)
    {value : Value} (found : doc.resolve clause.path = some value)
    (scalar : value.leafText? = some clause.literal) :
    clause.holds doc = false ↔ doc.resolve clause.path = some .null := by
  rw [holds, found, isEq]
  simpa using Value.satisfies_eq_of_leafText? scalar

/-- Keys of paths with plain names tell the path, the kind of the key and, where there is one, the
text.  On a document with plain names the index key of an equality is there exactly where the path
leads to a scalar whose text is the literal, and the index key of a comparison where it leads to a
scalar.  So a document that has the key of an equality fails the clause only if the path leads to a
null. -/
theorem keys_unambiguous :
    (∀ path path', IsPlainPath path → IsPlainPath path' →
      (pathKey path = pathKey path' ↔ path = path') ∧
      ∀ text text',
        (pathValueKey path text = pathValueKey path' text' ↔ path = path' ∧ text = text') ∧
        pathKey path ≠ pathValueKey path' text') ∧
    ∀ (doc : Document) (clause : Clause), doc.NamesPlain → IsPlainPath clause.path →
      (clause.op = .eq → (clause.indexKey ∈ doc.indexKeys.toList ↔
        ∃ value, doc.resolve clause.path = some value ∧ value.leafText? = some clause.literal)) ∧
      (clause.op ≠ .eq → (clause.indexKey ∈ doc.indexKeys.toList ↔
        ∃ value, doc.resolve clause.path = some value ∧ value.isScalar)) ∧
      (clause.op = .eq → clause.indexKey ∈ doc.indexKeys.toList →
        (clause.holds doc = false ↔ doc.resolve clause.path = some .null)) := by
  refine ⟨fun path path' plain plain' => ⟨plain.pathKey_inj plain', fun text text' =>
    ⟨plain.pathValueKey_inj plain', plain.pathKey_ne_pathValueKey path' text'⟩⟩, ?_⟩
  intro doc clause plain plainPath
  have equality (isEq : clause.op = .eq) : clause.indexKey ∈ doc.indexKeys.toList ↔
      ∃ value, doc.resolve clause.path = some value ∧ value.leafText? = some clause.literal := by
    rw [Clause.indexKey, isEq]
    exact plain.pathValueKey_mem_iff plainPath
  refine ⟨equality, fun isNotEq => ?_, fun isEq indexed => ?_⟩
  · have key : clause.indexKey = pathKey clause.path := by
      rw [Clause.indexKey]
      cases op : clause.op with
      | eq => exact absurd op isNotEq
      | lt | gt => rfl
    rw [key]
    exact plain.pathKey_mem_iff plainPath
  · obtain ⟨value, found, scalar⟩ := (equality isEq).1 indexed
    exact Clause.holds_eq_false_iff isEq found scalar

/-- A null, a text with both signs, and an object whose names are not plain in a list. -/
def plainNames : Document :=
  .ofFields [("a", .object [("", .null), ("b", .string "c.d=1")]),
    ("list", .array [.object [("x.y", .null)]])]

/-- The null has the key of the clause that asks for its text, and fails it; the list has no key.
An empty name at the end of a path is seen in its key. -/
theorem keys_unambiguous_null :
    pathKey ["a", ""] ≠ pathKey ["a"] ∧
      pathValueKey ["a", ""] "null" ∈ plainNames.indexKeys.toList ∧
      Clause.holds ⟨["a", ""], .eq, "null"⟩ plainNames = false ∧
      pathKey ["list"] ∉ plainNames.indexKeys.toList := by
  obtain ⟨paths, keys⟩ := keys_unambiguous
  have plain : plainNames.NamesPlain := by
    refine ⟨?_, ⟨?_, trivial, ?_, trivial, trivial⟩, ?_, trivial, trivial⟩ <;> decide
  obtain ⟨samePath, -⟩ := paths ["a", ""] ["a"] (by decide) (by decide)
  obtain ⟨equality, -, rejected⟩ := keys plainNames ⟨["a", ""], .eq, "null"⟩ plain (by decide)
  have indexed := (equality rfl).2 ⟨.null, rfl, rfl⟩
  obtain ⟨-, comparison, -⟩ := keys plainNames ⟨["list"], .lt, "1"⟩ plain (by decide)
  refine ⟨fun same => ?_, indexed, (rejected rfl indexed).2 rfl, fun held => ?_⟩
  · exact absurd (samePath.1 same) (by decide)
  · obtain ⟨value, found, scalar⟩ := (comparison (by decide)).1 held
    cases found
    cases scalar

end DocumentBase
