import DocumentBase.Instant

/-!
# DocumentBase.TimedMap

Maps whose entries expire.  Every write stamps its entry with the moment from which it is dead: that
of the write plus the time to live of the map.  A dead entry is as good as absent for every reader
and for every later write; that it is still there shows only in the count that a purge returns.

The clock is not part of a map.  Each operation is told the present moment.  A write needs a later
one as well, the deadline of its entry.  If that is out of range the write is broken off before it
has touched the map.
-/

namespace DocumentBase

/-- A value and the moment from which it is dead, if it ever dies. -/
structure Stamped (V : Type) where
  value : V
  deadline : Option Instant

/-- Whether the value is dead at a moment.  It is dead at its deadline already. -/
def Stamped.isExpired (entry : Stamped V) (now : Instant) : Bool :=
  match entry.deadline with
  | some deadline => deadline ≤ now
  | none => false

/-- A map whose entries expire: under each key at most one entry. -/
structure TimedMap (K V : Type) where
  ttl : Option Duration
  entries : List (K × Stamped V)
  nodup : (entries.map Prod.fst).Nodup

namespace TimedMap

variable {K V : Type}

/-- The map without entries. -/
def empty (ttl : Option Duration) : TimedMap K V := ⟨ttl, [], List.nodup_nil⟩

/-- The deadline of an entry written now. -/
def deadline (map : TimedMap K V) (now : Instant) : Outcome (Option Instant) :=
  now.deadline map.ttl

/-! ## Reading -/

/-- Every live entry. -/
def snapshot (map : TimedMap K V) (now : Instant) : List (K × V) :=
  (map.entries.filter fun entry => !entry.2.isExpired now).map fun entry => (entry.1, entry.2.value)

/-- The number of live entries. -/
def size (map : TimedMap K V) (now : Instant) : Nat :=
  map.entries.countP fun entry => !entry.2.isExpired now

def isEmpty (map : TimedMap K V) (now : Instant) : Bool := map.size now == 0

/-- Removes the dead entries, and counts them. -/
def purge (map : TimedMap K V) (now : Instant) : Nat × TimedMap K V :=
  let kept := map.entries.filter fun entry => !entry.2.isExpired now
  (map.entries.length - kept.length,
    { map with
      entries := kept
      nodup := map.nodup.sublist ((List.filter_sublist).map _) })

/-- As many entries are live as are shown. -/
@[simp] theorem length_snapshot (map : TimedMap K V) (now : Instant) :
    (map.snapshot now).length = map.size now := by
  simp [snapshot, size, List.countP_eq_length_filter]

/-- Each key is shown once. -/
theorem nodup_snapshot (map : TimedMap K V) (now : Instant) :
    ((map.snapshot now).map Prod.fst).Nodup := by
  rw [snapshot, List.map_map]
  exact map.nodup.sublist (List.filter_sublist.map _)

/-- What is purged is what is not live. -/
theorem purge_fst (map : TimedMap K V) (now : Instant) :
    (map.purge now).1 = map.entries.countP fun entry => entry.2.isExpired now := by
  have := List.length_eq_countP_add_countP (fun entry : K × Stamped V => entry.2.isExpired now)
    (l := map.entries)
  simp only [purge, ← List.countP_eq_length_filter]
  simp only [Bool.not_eq_true, Bool.decide_eq_false] at this
  omega

variable [DecidableEq K]

/-- The entry under a key, dead or alive. -/
def stamped? (map : TimedMap K V) (key : K) : Option (Stamped V) := map.entries.lookup key

/-- The live value under a key. -/
def find? (map : TimedMap K V) (now : Instant) (key : K) : Option V :=
  match map.stamped? key with
  | some entry => if entry.isExpired now then none else some entry.value
  | none => none

/-! ## Writing -/

/-- Puts an entry under a key, in place of the one that was there. -/
def put (map : TimedMap K V) (key : K) (entry : Stamped V) : TimedMap K V where
  ttl := map.ttl
  entries := (key, entry) :: map.entries.filter fun other => other.1 ≠ key
  nodup := by
    refine List.nodup_cons.2 ⟨?_, map.nodup.sublist ((List.filter_sublist).map _)⟩
    simp

/-- Writes a value, unless its deadline is out of range. -/
def set (map : TimedMap K V) (now : Instant) (key : K) (value : V) : Outcome Unit × TimedMap K V :=
  match map.deadline now with
  | .returned deadline => (.returned (), map.put key ⟨value, deadline⟩)
  | .overflowed => (.overflowed, map)

/-- Writes what `update` makes of the live value under the key, or of `default` if there is none,
and returns it.  The entry lives its full time again.  The clock is read twice, first to see whether
the old value is live, and then, with `stamp`, for the deadline of the new one. -/
def upsert (map : TimedMap K V) (now : Instant) (key : K) (default : V) (update : V → V)
    (stamp : Instant := now) : Outcome V × TimedMap K V :=
  let value := update ((map.find? now key).getD default)
  let (outcome, next) := map.set stamp key value
  (outcome.map fun _ => value, next)

/-! ## The entries as a map -/

/-- A key is found exactly where it is entered, for no key is entered twice. -/
theorem stamped?_eq_some_iff {map : TimedMap K V} {key : K} {entry : Stamped V} :
    map.stamped? key = some entry ↔ (key, entry) ∈ map.entries :=
  Fields.lookup_eq_some_iff map.nodup

/-- A put entry is under its key; other keys keep theirs. -/
@[simp] theorem stamped?_put (map : TimedMap K V) (key other : K) (entry : Stamped V) :
    (map.put key entry).stamped? other =
      if other = key then some entry else map.stamped? other := by
  ext found
  split
  · next same => rw [stamped?_eq_some_iff]; simp [put, same, eq_comm]
  · next different => rw [stamped?_eq_some_iff, stamped?_eq_some_iff]; simp [put, different]

/-- A purge takes the dead entries and no other. -/
@[simp] theorem stamped?_purge (map : TimedMap K V) (now : Instant) (key : K) :
    (map.purge now).2.stamped? key = (map.stamped? key).filter (!·.isExpired now) := by
  ext found
  rw [stamped?_eq_some_iff, Option.filter_eq_some_iff, stamped?_eq_some_iff]
  simp [purge]

/-- A write puts its entry where the time to live fits, and is broken off elsewhere. -/
theorem set_eq (map : TimedMap K V) (now : Instant) (key : K) (value : V) :
    map.set now key value =
      if now.Fits map.ttl then
        (.returned (), map.put key ⟨value, map.ttl.map (now + ·.toNanos)⟩)
      else (.overflowed, map) := by
  rw [set, deadline, Instant.deadline_eq]
  by_cases fits : now.Fits map.ttl <;> simp [fits]

/-- A set whose deadline a clock can tell puts the value under its key, with that deadline. -/
theorem set_of_fits {map : TimedMap K V} {now : Instant} (fits : now.Fits map.ttl) (key : K)
    (value : V) :
    map.set now key value =
      (.returned (), map.put key ⟨value, map.ttl.map (now + ·.toNanos)⟩) := by
  rw [set_eq, if_pos fits]

/-- A set whose deadline no clock can tell is broken off, and the map is what it was. -/
theorem set_of_not_fits {map : TimedMap K V} {now : Instant} (fits : ¬now.Fits map.ttl) (key : K)
    (value : V) : map.set now key value = (.overflowed, map) := by
  rw [set_eq, if_neg fits]

@[simp] theorem ttl_set (map : TimedMap K V) (now : Instant) (key : K) (value : V) :
    (map.set now key value).2.ttl = map.ttl := by
  rw [set_eq]
  split <;> rfl

/-- The value that a write leaves under a key is live until its deadline. -/
theorem find?_put (map : TimedMap K V) (now : Instant) (key other : K) (entry : Stamped V) :
    (map.put key entry).find? now other =
      if other = key then
        if entry.isExpired now then none else some entry.value
      else map.find? now other := by
  simp only [find?, stamped?_put]
  by_cases same : other = key <;> simp [same]

/-- What is shown is what can be found. -/
@[simp] theorem mem_snapshot {map : TimedMap K V} {now : Instant} {key : K} {value : V} :
    (key, value) ∈ map.snapshot now ↔ map.find? now key = some value := by
  constructor
  · intro shown
    simp only [snapshot, List.mem_map, List.mem_filter] at shown
    obtain ⟨⟨_, entry⟩, ⟨held, live⟩, rfl, rfl⟩ := shown
    simp_all [find?, stamped?_eq_some_iff.2 held]
  · intro found
    simp only [find?] at found
    split at found
    · next entry held =>
      simp only [snapshot, List.mem_map, List.mem_filter]
      exact ⟨(key, entry), ⟨stamped?_eq_some_iff.1 held, by grind⟩, by grind⟩
    · cases found

end TimedMap
end DocumentBase
