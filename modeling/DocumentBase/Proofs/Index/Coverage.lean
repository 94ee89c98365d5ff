import DocumentBase.Index.Leaves
import DocumentBase.Query.Matching

/-!
# DocumentBase.Proofs.Index.Coverage

The index is never too narrow.  Where a clause holds of a document its path leads to a leaf, and the
document is recorded under the keys of that leaf, one of which is the key of the clause
(`indexKey_mem_of_holds`).

Keys are ambiguous: a name may hold a point or an equals sign, and a null has the text of the string
that spells it.  So a key can find documents of which the clause does not hold, but that is the only
way in which it errs: a path and a text have one key each, whatever the names are.
-/

namespace DocumentBase

namespace Value

/-! ## Leaves -/

theorem leaves_of_leafText? {value : Value} {text : String} (h : value.leafText? = some text) :
    value.leaves = [⟨[], text⟩] := by
  cases value <;> simp_all [leafText?, leaves]

/-- The leaves of a field are leaves of the object, one name further down. -/
theorem under_mem_fieldsLeaves {fields : List (String × Value)} {name : String} {value : Value}
    {leaf : Leaf} (field : (name, value) ∈ fields) (held : leaf ∈ value.leaves) :
    leaf.under name ∈ fieldsLeaves fields := by
  induction fields with
  | nil => cases field
  | cons head rest ih =>
    obtain ⟨other, first⟩ := head
    rw [fieldsLeaves, List.mem_append]
    cases field with
    | head => exact .inl (List.mem_map_of_mem held)
    | tail _ field => exact .inr (ih field)

/-- A path that leads to a scalar leads to a leaf. -/
theorem mem_fieldsLeaves_of_resolve {fields : List (String × Value)} {path : List String}
    {value : Value} {text : String} (found : resolve fields path = some value)
    (scalar : value.leafText? = some text) : ⟨path, text⟩ ∈ fieldsLeaves fields := by
  induction path generalizing fields with
  | nil => cases found
  | cons name rest ih =>
    cases rest with
    | nil =>
      have field := Fields.mem_of_find? found
      have held : ⟨[], text⟩ ∈ value.leaves := by simp [leaves_of_leafText? scalar]
      exact under_mem_fieldsLeaves field held
    | cons next rest =>
      rw [resolve] at found
      split at found
      · next inner step =>
        have field := Fields.mem_of_find? step
        have held : ⟨next :: rest, text⟩ ∈ (object inner).leaves := by
          rw [leaves]
          exact ih found
        exact under_mem_fieldsLeaves field held
      · cases found

/-- What satisfies a clause is a scalar. -/
theorem leafText?_of_isComparable {value : Value} (h : value.isComparable) :
    ∃ text, value.leafText? = some text := by
  cases value <;> simp_all [isComparable, leafText?]

end Value

/-! ## Keys -/

namespace Document

variable {doc : Document} {path : List String} {text : String}

/-- The path of every leaf is a key of the document. -/
theorem pathKey_mem_indexKeys (leaf : ⟨path, text⟩ ∈ doc.leaves) :
    pathKey path ∈ doc.indexKeys.toList := by
  rw [IndexKeys.toList, indexKeys, List.mem_append]
  exact .inl (KeySet.mem_keys_ofList.2 (List.mem_map_of_mem leaf))

/-- The path of every leaf, with its text, is a key of the document. -/
theorem pathValueKey_mem_indexKeys (leaf : ⟨path, text⟩ ∈ doc.leaves) :
    pathValueKey path text ∈ doc.indexKeys.toList := by
  rw [IndexKeys.toList, indexKeys, List.mem_append]
  exact .inr (KeySet.mem_keys_ofList.2 (List.mem_map_of_mem leaf))

end Document

/-- A document is recorded under the key of every clause that holds of it. -/
theorem Clause.indexKey_mem_of_holds {clause : Clause} {doc : Document} (h : clause.holds doc) :
    clause.indexKey ∈ doc.indexKeys.toList := by
  unfold holds at h
  split at h
  · next value found =>
    simp only [Value.satisfies, Bool.and_eq_true] at h
    obtain ⟨comparable, compares⟩ := h
    obtain ⟨text, scalar⟩ := Value.leafText?_of_isComparable comparable
    have leaf : ⟨clause.path, text⟩ ∈ doc.leaves := Value.mem_fieldsLeaves_of_resolve found scalar
    unfold indexKey
    cases op : clause.op with
    | eq =>
      have same : text = clause.literal := by simpa [op, scalar] using compares
      rw [← same]
      exact Document.pathValueKey_mem_indexKeys leaf
    | lt => exact Document.pathKey_mem_indexKeys leaf
    | gt => exact Document.pathKey_mem_indexKeys leaf
  · cases h

end DocumentBase
