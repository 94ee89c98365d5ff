import DocumentBase.Proofs.Document.Codec
import DocumentBase.Proofs.Index.Paths

/-!
# DocumentBase.Proofs.Index.Nesting

A document inside another one.  When it is put into a document of one field, everything that can be
asked of it is found again behind the name of the field (`nesting_prefixes`):

1. A path that begins with the name leads where the rest of it led before.  The name alone leads to
   the whole document, which is an object and satisfies no clause, as the empty path leads nowhere.
2. Every key is the old one behind the name and a point.  All keys get the same text in front, so
   they stay apart and in their order, whatever the name is (`KeySet.keys_ofList_map`).
-/

namespace DocumentBase

/-! ## Keys with a text in front -/

/-- A text in front keeps the order of keys. -/
theorem append_lt_append (front : String) {key other : String} (h : key < other) :
    front ++ key < front ++ other := by
  show (front ++ key).toList < (front ++ other).toList
  rw [String.toList_append, String.toList_append]
  exact List.append_left_lt h

/-- Keys that are changed without changing their order are the same set of keys, changed. -/
theorem KeySet.keys_ofList_map {f : String → String}
    (mono : ∀ key other, key < other → f key < f other) (keys : List String) :
    (ofList (keys.map f)).keys = (ofList keys).keys.map f := by
  have ascending : ((ofList keys).keys.map f).Pairwise (· < ·) :=
    List.pairwise_map.2 ((ofList keys).ascending.imp fun before => mono _ _ before)
  have same : ofList (keys.map f) = ⟨(ofList keys).keys.map f, ascending⟩ := by
    refine ext fun key => ?_
    simp only [mem_keys_ofList, List.mem_map]
  exact congrArg KeySet.keys same

/-- A clause on what a field holds, as a clause on what the field is in. -/
def Clause.under (name : String) (clause : Clause) : Clause :=
  { clause with path := name :: clause.path }

namespace Document

variable (name : String) (doc : Document)

theorem under_eq_withField : doc.under name = empty.withField name doc.toValue := by
  have same : doc.toValue.canonical = doc.toValue := Value.canonical_of_ordered doc.ordered
  refine ext ?_
  show [(name, doc.toValue)] = Fields.insert name doc.toValue.canonical []
  rw [same, Fields.insert]

/-! ## Paths -/

/-- The name itself leads to all of the document. -/
theorem resolve_under_singleton : (doc.under name).resolve [name] = some doc.toValue := by
  simp [resolve, under, Value.resolve, Fields.find?]

/-- A path goes on in the document behind the name of its field. -/
theorem resolve_under {path : List String} (nonempty : path ≠ []) :
    (doc.under name).resolve (name :: path) = doc.resolve path := by
  obtain ⟨next, rest, rfl⟩ := List.exists_cons_of_ne_nil nonempty
  simp [resolve, under, Value.resolve, Fields.find?, toValue]

/-! ## Keys -/

/-- Every leaf gets the name in front of its path. -/
theorem leaves_under : (doc.under name).leaves = doc.leaves.map (Leaf.under name) := by
  simp [leaves, under, toValue, Value.fieldsLeaves, Value.leaves]

/-- Whatever keys leaves have, if a name further out is a text in front of the key, the set of keys
has this text in front of each. -/
theorem keys_under {key : Leaf → String} {front : String}
    (step : ∀ leaf : Leaf, leaf.path ≠ [] → key (leaf.under name) = front ++ key leaf) :
    (KeySet.ofList ((doc.under name).leaves.map key)).keys
      = (KeySet.ofList (doc.leaves.map key)).keys.map (front ++ ·) := by
  rw [← KeySet.keys_ofList_map (fun _ _ => append_lt_append front), leaves_under, List.map_map,
    List.map_map]
  congr 1
  refine congrArg KeySet.ofList (List.map_congr_left fun leaf held => ?_)
  exact step leaf (Value.path_ne_nil_of_mem_fieldsLeaves held)

/-- Every path key gets the name and a point in front, and their order stays. -/
theorem paths_under :
    (doc.under name).indexKeys.paths.keys
      = doc.indexKeys.paths.keys.map (name ++ "." ++ ·) :=
  keys_under name doc fun _ nonempty => (keyIn_key none name nonempty).symm

/-- Every equality key gets the name and a point in front, and their order stays. -/
theorem pathValues_under :
    (doc.under name).indexKeys.pathValues.keys
      = doc.indexKeys.pathValues.keys.map (name ++ "." ++ ·) :=
  keys_under name doc fun _ nonempty => (keyIn_valueKey none name nonempty).symm

/-! ## Clauses -/

/-- A clause under the name says of the nested document what the clause says of the document. -/
theorem holds_under (clause : Clause) :
    (clause.under name).holds (doc.under name) = clause.holds doc := by
  obtain ⟨path, op, literal⟩ := clause
  cases path with
  | nil =>
    -- The path leads to the document itself, where it led nowhere before.
    rw [Clause.under, Clause.holds, resolve_under_singleton]
    rfl
  | cons next rest =>
    rw [Clause.under, Clause.holds, resolve_under name doc (List.cons_ne_nil next rest)]
    rfl

theorem satisfiesAll_under (clauses : List Clause) :
    (doc.under name).satisfiesAll (clauses.map (Clause.under name)) = doc.satisfiesAll clauses := by
  rw [satisfiesAll, List.all_map, satisfiesAll]
  exact congrArg clauses.all (funext fun clause => holds_under name doc clause)

/-- A document in a field: paths behind the name of the field lead where they led; the keys are the
same ones behind the name and a point, one for each and in the same order; and clauses hold behind
the name as they held before. -/
theorem nesting_prefixes (doc : Document) (name : String) :
    doc.under name = empty.withField name doc.toValue ∧
    (∀ path, path ≠ [] → (doc.under name).resolve (name :: path) = doc.resolve path) ∧
    (doc.under name).indexKeys.paths.keys
      = doc.indexKeys.paths.keys.map (name ++ "." ++ ·) ∧
    (doc.under name).indexKeys.pathValues.keys
      = doc.indexKeys.pathValues.keys.map (name ++ "." ++ ·) ∧
    ∀ clauses, (doc.under name).satisfiesAll (clauses.map (Clause.under name))
      = doc.satisfiesAll clauses :=
  ⟨under_eq_withField name doc, fun _ => resolve_under name doc, paths_under name doc,
    pathValues_under name doc, satisfiesAll_under name doc⟩

/-- A document with separators in its names, one of which is empty. -/
def separatorNames : Document :=
  .ofFields [("", .object [("a=b", .null)]), ("c.d", .string "")]

/-- Under a name that is a separator itself.  The clause without a path leads to the document, and
holds no more than before. -/
theorem nesting_prefixes_separators :
    (separatorNames.under ".").resolve [".", "", "a=b"] = some .null ∧
    (separatorNames.under ".").indexKeys.paths.keys = ["...a=b", "..c.d"] ∧
    (separatorNames.under ".").indexKeys.pathValues.keys = ["...a=b=null", "..c.d="] ∧
    (separatorNames.under ".").satisfiesAll [⟨[".", "c.d"], .eq, ""⟩] = true ∧
    (separatorNames.under ".").satisfiesAll [⟨["."], .eq, ""⟩] = false := by
  obtain ⟨-, paths, keys, valueKeys, clauses⟩ := nesting_prefixes separatorNames "."
  refine ⟨?_, ?_, ?_, ?_, ?_⟩
  · rw [paths ["", "a=b"] (by simp)]
    rfl
  · rw [keys]
    decide
  · rw [valueKeys]
    decide
  · exact (clauses [⟨["c.d"], .eq, ""⟩]).trans (by decide)
  · exact (clauses [⟨[], .eq, ""⟩]).trans (by decide)

end Document
end DocumentBase
