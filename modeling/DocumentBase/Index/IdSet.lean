import DocumentBase.DocId

/-!
# DocumentBase.Index.IdSet

Finite sets of document identifiers.
-/

namespace DocumentBase

/-- A set of identifiers. -/
structure IdSet where
  ids : List DocId
  nodup : ids.Nodup

namespace IdSet

def empty : IdSet := ⟨[], List.nodup_nil⟩

instance : Membership DocId IdSet := ⟨fun set id => id ∈ set.ids⟩

/-- The set with an identifier more. -/
def insert (set : IdSet) (id : DocId) : IdSet where
  ids := set.ids.insert id
  nodup := by
    by_cases h : id ∈ set.ids
    · rw [List.insert_of_mem h]
      exact set.nodup
    · rw [List.insert_of_not_mem h]
      exact List.nodup_cons.2 ⟨h, set.nodup⟩

/-- A document that is recorded joins those that are there already. -/
@[simp] theorem mem_insert {set : IdSet} {id other : DocId} :
    other ∈ set.insert id ↔ other = id ∨ other ∈ set := List.mem_insert_iff

end IdSet
end DocumentBase
