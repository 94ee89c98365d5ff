import DocumentBase.Index.IdSet
import DocumentBase.TimedMap

/-!
# DocumentBase.Index.Postings

The index: under each key the identifiers of the documents that were recorded with it.  The
identifiers of a key expire together, and every record under the key lets all of them live on.  The
index may know documents that are gone; who reads it has to look whether they are there.
-/

namespace DocumentBase

/-- The index of a database. -/
structure Index where
  postings : TimedMap String IdSet

namespace Index

/-- The index without keys. -/
def empty (ttl : Option Duration) : Index := ⟨.empty ttl⟩

/-- Records a document under one key, unless the deadline is out of range. -/
def recordKey (index : Index) (now : Instant) (id : DocId) (key : String)
    (stamp : Instant := now) : Index :=
  ⟨(index.postings.upsert now key .empty (·.insert id) stamp).2⟩

/-- Records a document under some keys, each at a moment of its own.  This ends with the first key
whose deadline is out of range.  That needs no mention here: the clock never goes back, so those of
the keys behind it are out of range as well (`record_eq_of_forward`). -/
def record (index : Index) (clock : String → Instant) (id : DocId) (keys : List String) : Index :=
  keys.foldl (fun index key => index.recordKey (clock key) id key) index

/-- Whether the deadlines of some keys are all in range. -/
def FitsAll (index : Index) (clock : String → Instant) (keys : List String) : Prop :=
  ∀ key ∈ keys, (clock key).Fits index.postings.ttl

instance (index : Index) (clock : String → Instant) (keys : List String) :
    Decidable (index.FitsAll clock keys) :=
  inferInstanceAs (Decidable (∀ key ∈ keys, (clock key).Fits index.postings.ttl))

/-- How recording a document under some keys ends. -/
def recording (index : Index) (clock : String → Instant) (keys : List String) : Outcome Unit :=
  if index.FitsAll clock keys then .returned () else .overflowed

/-- Recording under a key leaves the time to live of an index as it is. -/
@[simp] theorem ttl_recordKey (index : Index) (now stamp : Instant) (id : DocId) (key : String) :
    (index.recordKey now id key stamp).postings.ttl = index.postings.ttl :=
  TimedMap.ttl_set ..

@[simp] theorem ttl_record (index : Index) (clock : String → Instant) (id : DocId)
    (keys : List String) : (index.record clock id keys).postings.ttl = index.postings.ttl := by
  induction keys generalizing index with
  | nil => rfl
  | cons key rest ih => exact (ih _).trans (ttl_recordKey ..)

/-- A recording that a clock can time adds the document to those that are found under the key now,
and the set of all of them gets a new deadline. -/
theorem recordKey_of_fits {index : Index} {stamp : Instant}
    (fits : stamp.Fits index.postings.ttl) (now : Instant) (id : DocId) (key : String) :
    index.recordKey now id key stamp =
      ⟨index.postings.put key ⟨((index.postings.find? now key).getD .empty).insert id,
        index.postings.ttl.map (stamp + ·.toNanos)⟩⟩ := by
  rw [recordKey, TimedMap.upsert, TimedMap.set_of_fits fits]

/-- A recording that no clock can time is broken off, and the index is what it was. -/
theorem recordKey_of_not_fits {index : Index} {stamp : Instant}
    (fits : ¬stamp.Fits index.postings.ttl) (now : Instant) (id : DocId) (key : String) :
    index.recordKey now id key stamp = index := by
  rw [recordKey, TimedMap.upsert, TimedMap.set_of_not_fits fits]

theorem record_of_not_fits {index : Index} {clock : String → Instant} {keys : List String}
    (fits : ∀ key ∈ keys, ¬(clock key).Fits index.postings.ttl) (id : DocId) :
    index.record clock id keys = index := by
  induction keys with
  | nil => rfl
  | cons key rest ih =>
    obtain ⟨first, others⟩ := List.forall_mem_cons.1 fits
    rw [record, List.foldl_cons, recordKey_of_not_fits first]
    exact ih others

/-- With a clock that never goes back, nothing is recorded from the first key on whose deadline is
out of range. -/
theorem record_eq_of_forward (index : Index) {clock : String → Instant} (id : DocId)
    {keys : List String} (forward : (keys.map clock).Pairwise (· ≤ ·)) :
    index.record clock id keys =
      index.record clock id (keys.takeWhile fun key => (clock key).Fits index.postings.ttl) := by
  induction keys generalizing index with
  | nil => rfl
  | cons key rest ih =>
    obtain ⟨first, others⟩ := List.pairwise_cons.1 forward
    by_cases fits : (clock key).Fits index.postings.ttl
    · rw [List.takeWhile_cons_of_pos (by simpa using fits)]
      have recorded := ih (index.recordKey (clock key) id key) others
      rw [ttl_recordKey] at recorded
      exact recorded
    · rw [List.takeWhile_cons_of_neg (by simpa using fits)]
      -- What is out of range stays so.
      refine record_of_not_fits (fun other held later => fits ?_) id
      rcases List.mem_cons.1 held with rfl | held
      · exact later
      · exact later.earlier (first _ (List.mem_map_of_mem held))

/-- The documents under a key; none under an unknown one. -/
def lookup (index : Index) (now : Instant) (key : String) : IdSet :=
  (index.postings.find? now key).getD .empty

/-- The number of live keys. -/
def size (index : Index) (now : Instant) : Nat := index.postings.size now

def isEmpty (index : Index) (now : Instant) : Bool := index.postings.isEmpty now

/-- Removes the expired keys, and counts them. -/
def purge (index : Index) (now : Instant) : Nat × Index :=
  let (count, postings) := index.postings.purge now
  (count, ⟨postings⟩)

end Index
end DocumentBase
