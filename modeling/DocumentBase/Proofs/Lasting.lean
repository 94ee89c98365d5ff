import DocumentBase.Index.Postings

/-!
# DocumentBase.Proofs.Lasting

Maps that last.  At moments at which nothing in a map is dead the clock is not seen: reading shows
every entry, and a purge removes nothing (`AliveAt`).  Without a time to live nothing that is
written ever dies, so these are all moments (`Lasting`), and what is written under a key stays until
it is overwritten.

For an index that lasts this means that it forgets nothing: under a key it has exactly the
documents that were recorded with it (`mem_lookup_record`).
-/

namespace DocumentBase

namespace TimedMap

variable {K V : Type} {map : TimedMap K V}

/-! ## Moments at which everything lives -/

/-- Nothing in the map is dead at any of some moments. -/
def AliveAt (map : TimedMap K V) (moments : Instant → Prop) : Prop :=
  ∀ entry ∈ map.entries, ∀ now, moments now → entry.2.isExpired now = false

namespace AliveAt

variable {moments : Instant → Prop} {now : Instant}

theorem empty (ttl : Option Duration) (moments : Instant → Prop) :
    (TimedMap.empty ttl : TimedMap K V).AliveAt moments := by
  simp [AliveAt, TimedMap.empty]

/-- Every entry is live. -/
theorem filter_entries (h : map.AliveAt moments) (moment : moments now) :
    (map.entries.filter fun entry => !entry.2.isExpired now) = map.entries := by
  simp only [List.filter_eq_self]
  intro entry held
  simp [h entry held now moment]

/-- A snapshot shows every entry while all of them live. -/
theorem snapshot_eq (h : map.AliveAt moments) (moment : moments now) :
    map.snapshot now = map.entries.map fun entry => (entry.1, entry.2.value) := by
  rw [snapshot, h.filter_entries moment]

theorem size_eq (h : map.AliveAt moments) (moment : moments now) :
    map.size now = map.entries.length := by
  rw [← length_snapshot, h.snapshot_eq moment, List.length_map]

/-- A purge removes nothing while all entries live. -/
theorem purge_snd (h : map.AliveAt moments) (moment : moments now) :
    (map.purge now).2 = map := by
  have kept := h.filter_entries moment
  cases map
  simpa only [purge, mk.injEq, true_and, and_true] using kept

variable [DecidableEq K]

/-- What is there can be found. -/
theorem find?_eq (h : map.AliveAt moments) (moment : moments now) (key : K) :
    map.find? now key = (map.stamped? key).map (·.value) := by
  unfold find?
  cases held : map.stamped? key with
  | none => rfl
  | some entry => simp [h (key, entry) (stamped?_eq_some_iff.1 held) now moment]

/-- An entry that lives at the moments leaves everything alive. -/
theorem put (h : map.AliveAt moments) (key : K) {entry : Stamped V}
    (lives : ∀ now, moments now → entry.isExpired now = false) :
    (map.put key entry).AliveAt moments := by
  simp only [AliveAt, TimedMap.put, List.mem_cons, List.mem_filter]
  rintro entry (rfl | ⟨held, -⟩)
  · exact lives
  · exact h entry held

end AliveAt

/-! ## Without a time to live -/

/-- Nothing in the map ever dies, nor does what will be written to it. -/
structure Lasting (map : TimedMap K V) : Prop where
  ttl : map.ttl = none
  entries : ∀ entry ∈ map.entries, entry.2.deadline = none

namespace Lasting

theorem empty : (TimedMap.empty none : TimedMap K V).Lasting where
  ttl := rfl
  entries := by simp [TimedMap.empty]

/-- Every moment is one at which everything lives. -/
theorem aliveAt (h : map.Lasting) : map.AliveAt fun _ => True := by
  intro entry held now _
  simp [Stamped.isExpired, h.entries entry held]

/-! ## Reading -/

/-- Without a time to live a snapshot shows every entry, at any moment. -/
theorem snapshot_eq (h : map.Lasting) (now : Instant) :
    map.snapshot now = map.entries.map fun entry => (entry.1, entry.2.value) :=
  h.aliveAt.snapshot_eq trivial

/-- Without a time to live a purge removes nothing, at any moment. -/
theorem purge_snd (h : map.Lasting) (now : Instant) : (map.purge now).2 = map :=
  h.aliveAt.purge_snd trivial

variable [DecidableEq K]

/-- It makes no difference when a key is looked up. -/
theorem find?_eq (h : map.Lasting) (now later : Instant) (key : K) :
    map.find? now key = map.find? later key :=
  (h.aliveAt.find?_eq trivial key).trans (h.aliveAt.find?_eq trivial key).symm

/-! ## Writing -/

/-- No write is broken off, and what it writes never dies. -/
theorem set_eq (h : map.Lasting) (now : Instant) (key : K) (value : V) :
    map.set now key value = (.returned (), map.put key ⟨value, none⟩) := by
  rw [TimedMap.set_eq, h.ttl, if_pos Instant.fits_none, Option.map_none]

/-- A value that is set lasts with the others. -/
theorem set (h : map.Lasting) (now : Instant) (key : K) (value : V) :
    (map.set now key value).2.Lasting where
  ttl := (ttl_set ..).trans h.ttl
  entries := by
    simp only [h.set_eq, put, List.mem_cons, List.mem_filter]
    rintro entry (rfl | ⟨held, -⟩)
    · rfl
    · exact h.entries entry held

/-- A value that is set is found at every moment, under its key only. -/
theorem find?_set (h : map.Lasting) (written now : Instant) (key other : K) (value : V) :
    (map.set written key value).2.find? now other =
      if other = key then some value else map.find? now other := by
  rw [h.set_eq, find?_put]
  simp [Stamped.isExpired]

/-- What is written under a key that is not there yet comes in front of the rest. -/
theorem snapshot_set (h : map.Lasting) (written now : Instant) {key : K} (value : V)
    (absent : key ∉ (map.snapshot now).map Prod.fst) :
    (map.set written key value).2.snapshot now = (key, value) :: map.snapshot now := by
  rw [h.snapshot_eq now] at absent ⊢
  rw [(h.set written key value).snapshot_eq now]
  have others : (map.entries.filter fun other => other.1 ≠ key) = map.entries := by
    simp only [List.filter_eq_self]
    intro entry held
    have different : entry.1 ≠ key := by
      intro same
      exact absent (by simp only [List.map_map, List.mem_map]; exact ⟨entry, held, same⟩)
    simpa using different
  simp only [h.set_eq, put, others, List.map_cons]

end Lasting

end TimedMap

namespace Index

variable {index : Index} {other : DocId}

/-- An index that lasts gains the document under the key, and nothing else changes. -/
theorem mem_lookup_recordKey (h : index.postings.Lasting) (written now : Instant) (id : DocId)
    (key wanted : String) :
    other ∈ (index.recordKey written id key).lookup now wanted ↔
      (other = id ∧ wanted = key) ∨ other ∈ index.lookup now wanted := by
  simp only [recordKey, lookup, TimedMap.upsert]
  rw [h.find?_set written now, h.find?_eq written now]
  by_cases same : wanted = key
  · subst same
    simp
  · simp [same]

theorem lasting_recordKey (h : index.postings.Lasting) (written : Instant) (id : DocId)
    (key : String) : (index.recordKey written id key).postings.Lasting := h.set written key _

theorem lasting_record (h : index.postings.Lasting) (clock : String → Instant) (id : DocId)
    (keys : List String) : (index.record clock id keys).postings.Lasting := by
  induction keys generalizing index with
  | nil => exact h
  | cons key rest ih => exact ih (lasting_recordKey h (clock key) id key)

/-- An index that lasts gains the document under every one of the keys, whenever and in whatever
order they are recorded, and nothing else changes. -/
theorem mem_lookup_record (h : index.postings.Lasting) (clock : String → Instant) (now : Instant)
    (id : DocId) (keys : List String) (wanted : String) :
    other ∈ (index.record clock id keys).lookup now wanted ↔
      (other = id ∧ wanted ∈ keys) ∨ other ∈ index.lookup now wanted := by
  induction keys generalizing index with
  | nil => simp [record]
  | cons key rest ih =>
    have first := lasting_recordKey h (clock key) id key
    have split : index.record clock id (key :: rest) =
      (index.recordKey (clock key) id key).record clock id rest := rfl
    rw [split, ih first, mem_lookup_recordKey h, List.mem_cons]
    grind

end Index
end DocumentBase
