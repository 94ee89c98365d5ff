import DocumentBase.Proofs.Lasting
import DocumentBase.Proofs.Visibility
import Mathlib.Data.List.Dedup

/-!
# DocumentBase.Proofs.Index.Recording

Recording documents in any order.  Callers record a document under some keys, and several do so at
the same time: each key is recorded at once, but what happens between two keys of one caller is not
up to that caller.  So a schedule is a list of events, one for each key of each call, in whatever
order they come.

As long as nothing in the index dies, and no event is broken off, the order is not seen.  The index
is the relation of the identifiers and keys that have been recorded (`Keeps`): every event adds one
pair to it and takes none away, and the same pairs make the same index (`Keeps.same`).
-/

namespace DocumentBase.Index

open TimedMap.Written

/-! ## Schedules -/

/-- An identifier and a key under which it is recorded. -/
abbrev Posting := DocId × String

/-- A call that records a document under some keys. -/
structure Recording where
  id : DocId
  keys : List String

/-- What a call records. -/
def Recording.postings (call : Recording) : List Posting := call.keys.map fun key => (call.id, key)

/-- What happens to an index at once, with the moments that the clock shows: a document is recorded
under one key, or what is dead is removed. -/
inductive Event where
  | record (now stamp : Instant) (id : DocId) (key : String)
  | purge (now : Instant)

namespace Event

def posting? : Event → Option Posting
  | record _ _ id key => some (id, key)
  | purge _ => none

/-- The moment as of which the event sees what is dead. -/
def sees : Event → Instant
  | record now .. | purge now => now

/-- The moment from which what the event writes has its time to live. -/
def stamp? : Event → Option Instant
  | record _ stamp .. => some stamp
  | purge _ => none

/-- Whether an event sees one of some moments, and what it is to write is written and lives at all
of them. -/
def LastsAt (event : Event) (ttl : Option Duration) (moments : Instant → Prop) : Prop :=
  moments event.sees ∧
    ∀ stamp ∈ event.stamp?, stamp.Fits ttl ∧ ∀ later, moments later → lives ttl stamp later

end Event

/-- Whether some events carry out some calls: there is one for each key of each call, in any order,
and there can be purges anywhere. -/
def CarryOut (events : List Event) (calls : List Recording) : Prop :=
  (events.filterMap Event.posting?).Perm (calls.flatMap Recording.postings)

instance (events : List Event) (calls : List Recording) : Decidable (CarryOut events calls) :=
  inferInstanceAs (Decidable (List.Perm _ _))

/-- Whether what the events are to write is written, and not dead at a moment that one of them sees,
nor is it `now`. -/
def NothingDies (ttl : Option Duration) (events : List Event) (now : Instant) : Prop :=
  ∀ event ∈ events, event.LastsAt ttl (· ∈ now :: events.map Event.sees)

instance (ttl : Option Duration) (events : List Event) (now : Instant) :
    Decidable (NothingDies ttl events now) :=
  inferInstanceAs (Decidable (∀ event ∈ events, event.sees ∈ now :: events.map Event.sees ∧
    ∀ stamp ∈ event.stamp?, stamp.Fits ttl ∧
      ∀ later ∈ now :: events.map Event.sees, lives ttl stamp later = true))

/-- Without a time to live nothing dies. -/
theorem nothingDies_forever (events : List Event) (now : Instant) : NothingDies none events now :=
  fun _ held => ⟨List.mem_cons_of_mem _ (List.mem_map_of_mem held),
    fun _ _ => ⟨Instant.fits_none, fun _ _ => rfl⟩⟩

/-- The index that an event leaves behind. -/
def apply (index : Index) : Event → Index
  | .record now stamp id key => index.recordKey now id key stamp
  | .purge now => (index.purge now).2

/-- The index that some events leave behind. -/
def play (index : Index) (events : List Event) : Index := events.foldl apply index

/-- Recording a document under some keys is made of the events of its keys. -/
theorem play_record (index : Index) (clock : String → Instant) (id : DocId) (keys : List String) :
    index.play (keys.map fun key => .record (clock key) (clock key) id key)
      = index.record clock id keys := by
  rw [play, List.foldl_map]
  rfl

/-! ## The relation that an index is -/

/- At the moments in question nothing in the index is dead, so it is a relation between documents
and keys, and the deadlines do not matter.  Each event keeps it one, with a posting more or none. -/

/-- The index has exactly some postings, and nothing in it is dead at some moments. -/
structure Keeps (index : Index) (ttl : Option Duration) (moments : Instant → Prop)
    (postings : List Posting) : Prop where
  ttl_eq : index.postings.ttl = ttl
  alive : index.postings.AliveAt moments
  absent : ∀ {key}, index.postings.stamped? key = none → ∀ id, (id, key) ∉ postings
  present : ∀ {key entry}, index.postings.stamped? key = some entry →
    (∃ id, (id, key) ∈ postings) ∧ ∀ id, id ∈ entry.value ↔ (id, key) ∈ postings

variable {index other : Index} {ttl : Option Duration} {moments : Instant → Prop} {now : Instant}
  {postings others : List Posting} {id : DocId} {key : String}

namespace Keeps

theorem empty (ttl : Option Duration) (moments : Instant → Prop) :
    (Index.empty ttl).Keeps ttl moments [] where
  ttl_eq := rfl
  alive := .empty ttl moments
  absent := by simp
  present := by simp [Index.empty, TimedMap.empty, TimedMap.stamped?]

/-! ## Events -/

/-- What is live under a key is all that has been recorded under it. -/
theorem mem_find? (h : index.Keeps ttl moments postings) (seen : moments now) :
    id ∈ (index.postings.find? now key).getD .empty ↔ (id, key) ∈ postings := by
  rw [h.alive.find?_eq seen]
  cases held : index.postings.stamped? key with
  | none => exact iff_of_false List.not_mem_nil (h.absent held id)
  | some entry => exact (h.present held).2 id

/-- An entry to which an identifier is added has one posting more, whether its key was there or
not. -/
theorem put (h : index.Keeps ttl moments postings) (seen : moments now) (id : DocId) (key : String)
    {deadline : Option Instant}
    (lasts : ∀ (ids : IdSet) later, moments later →
      (Stamped.mk ids deadline).isExpired later = false) :
    (Index.mk (index.postings.put key
        ⟨((index.postings.find? now key).getD .empty).insert id, deadline⟩)).Keeps ttl moments
      (postings ++ [(id, key)]) where
  ttl_eq := h.ttl_eq
  alive := h.alive.put key (lasts _)
  absent := by
    intro wanted none other
    rw [TimedMap.stamped?_put] at none
    split at none
    · cases none
    · next different => simpa [different] using h.absent none other
  present := by
    intro wanted entry some_entry
    rw [TimedMap.stamped?_put] at some_entry
    split at some_entry
    · next same =>
      cases some_entry
      refine ⟨⟨id, by simp [same]⟩, fun other => ?_⟩
      rw [IdSet.mem_insert, h.mem_find? seen]
      simp [same, or_comm]
    · next different =>
      obtain ⟨⟨first, recorded⟩, ids⟩ := h.present some_entry
      exact ⟨⟨first, List.mem_append_left _ recorded⟩, by simpa [different] using ids⟩

/-- Recording adds one posting. -/
theorem recordKey (h : index.Keeps ttl moments postings) (seen : moments now) {stamp : Instant}
    (fits : stamp.Fits ttl) (lasts : ∀ later, moments later → lives ttl stamp later) (id : DocId)
    (key : String) :
    (index.recordKey now id key stamp).Keeps ttl moments (postings ++ [(id, key)]) := by
  rw [recordKey_of_fits (by rwa [h.ttl_eq]), h.ttl_eq]
  refine h.put seen id key fun ids later moment => ?_
  rw [TimedMap.isExpired_eq, lasts later moment]
  rfl

/-- An event adds its posting, if it is a recording, and takes none away. -/
theorem apply (h : index.Keeps ttl moments postings) {event : Event}
    (lasts : event.LastsAt ttl moments) :
    (index.apply event).Keeps ttl moments (postings ++ event.posting?.toList) := by
  obtain ⟨seen, stamps⟩ := lasts
  cases event with
  | record now stamp id key =>
    obtain ⟨fits, lasts⟩ := stamps stamp rfl
    exact h.recordKey seen fits lasts id key
  | purge now =>
    have kept : index.apply (.purge now) = index := congrArg Index.mk (h.alive.purge_snd seen)
    rw [kept, Event.posting?, Option.toList_none, List.append_nil]
    exact h

/-- What some events leave behind is what was there and what they record. -/
theorem play (h : index.Keeps ttl moments postings) {events : List Event}
    (lasts : ∀ event ∈ events, event.LastsAt ttl moments) :
    (index.play events).Keeps ttl moments (postings ++ events.filterMap Event.posting?) := by
  induction events generalizing index postings with
  | nil => simpa [Index.play] using h
  | cons event events ih =>
    have first := h.apply (lasts event List.mem_cons_self)
    have rest := ih first fun other held => lasts other (List.mem_cons_of_mem _ held)
    have recorded : (event :: events).filterMap Event.posting?
        = event.posting?.toList ++ events.filterMap Event.posting? := by
      cases posting : event.posting? <;> simp [posting]
    rw [recorded, ← List.append_assoc]
    exact rest

/-! ## Reading -/

/-- A lookup finds the documents that were recorded under the key. -/
theorem mem_lookup (h : index.Keeps ttl moments postings) (seen : moments now) :
    id ∈ index.lookup now key ↔ (id, key) ∈ postings := h.mem_find? seen

/-- The index has an entry for each key that was recorded. -/
theorem key_mem_entries (h : index.Keeps ttl moments postings) :
    key ∈ index.postings.entries.map Prod.fst ↔ key ∈ postings.map Prod.snd := by
  rw [List.mem_map, List.mem_map]
  constructor
  · rintro ⟨⟨_, entry⟩, held, rfl⟩
    obtain ⟨⟨id, recorded⟩, -⟩ := h.present (TimedMap.stamped?_eq_some_iff.2 held)
    exact ⟨_, recorded, rfl⟩
  · rintro ⟨⟨id, _⟩, recorded, rfl⟩
    cases held : index.postings.stamped? _ with
    | none => exact absurd recorded (h.absent held id)
    | some entry => exact ⟨_, TimedMap.stamped?_eq_some_iff.1 held, rfl⟩

/-- There are as many keys as different ones have been recorded. -/
theorem size_eq (h : index.Keeps ttl moments postings) (seen : moments now) :
    index.size now = (postings.map Prod.snd).dedup.length := by
  have keys : (index.postings.entries.map Prod.fst).Perm (postings.map Prod.snd).dedup := by
    refine (List.perm_ext_iff_of_nodup index.postings.nodup (List.nodup_dedup _)).2 fun key => ?_
    rw [h.key_mem_entries, List.mem_dedup]
  rw [Index.size, h.alive.size_eq seen, ← keys.length_eq, List.length_map]

end Keeps

/-- Whether two indexes show the same: under each key both have nothing, or the same identifiers,
and they have as many keys. -/
def ShowsSame (now : Instant) (index other : Index) : Prop :=
  (∀ key, Option.Rel (fun ids others => ids.ids.Perm others.ids)
    (index.postings.find? now key) (other.postings.find? now key)) ∧
  index.size now = other.size now

/-- The same postings make the same index. -/
theorem Keeps.same {ttl' : Option Duration} {moments' : Instant → Prop}
    (h : index.Keeps ttl moments postings) (h' : other.Keeps ttl' moments' others)
    (seen : moments now) (seen' : moments' now)
    (same : ∀ posting, posting ∈ postings ↔ posting ∈ others) :
    ShowsSame now index other := by
  constructor
  · intro key
    rw [h.alive.find?_eq seen, h'.alive.find?_eq seen']
    cases held : index.postings.stamped? key with
    | none =>
      cases held' : other.postings.stamped? key with
      | none => exact .none
      | some entry =>
        obtain ⟨⟨id, recorded⟩, -⟩ := h'.present held'
        exact absurd ((same _).2 recorded) (h.absent held id)
    | some entry =>
      obtain ⟨⟨id, recorded⟩, ids⟩ := h.present held
      cases held' : other.postings.stamped? key with
      | none => exact absurd ((same _).1 recorded) (h'.absent held' id)
      | some entry' =>
        have members (id : DocId) : id ∈ entry.value.ids ↔ id ∈ entry'.value.ids :=
          (ids id).trans ((same _).trans ((h'.present held').2 id).symm)
        exact .some ((List.perm_ext_iff_of_nodup entry.value.nodup entry'.value.nodup).2 members)
  · have keys : (postings.map Prod.snd).dedup.Perm (others.map Prod.snd).dedup := by
      refine (List.perm_ext_iff_of_nodup (List.nodup_dedup _) (List.nodup_dedup _)).2 fun key => ?_
      simp only [List.mem_dedup, List.mem_map, same]
    rw [h.size_eq seen, h'.size_eq seen', keys.length_eq]

/-! ## Calls -/

variable {events : List Event} {calls : List Recording}

/-- The calls record each document under each of its keys. -/
theorem mem_flatMap_postings :
    (id, key) ∈ calls.flatMap Recording.postings ↔
      ∃ call ∈ calls, call.id = id ∧ key ∈ call.keys := by
  rw [List.mem_flatMap]
  refine exists_congr fun call => and_congr_right fun _ => ?_
  rw [Recording.postings, List.mem_map]
  constructor
  · rintro ⟨_, held, ⟨⟩⟩
    exact ⟨rfl, held⟩
  · rintro ⟨rfl, held⟩
    exact ⟨key, held, rfl⟩

theorem map_snd_flatMap_postings :
    (calls.flatMap Recording.postings).map Prod.snd = calls.flatMap Recording.keys := by
  simp [List.map_flatMap, Recording.postings, Function.comp_def]

/-- Whether the index is the relation of the identifiers and keys that are in some calls. -/
structure Holds (index : Index) (now : Instant) (calls : List Recording) : Prop where
  /-- Under each key there are the identifiers of the calls that have it, and no others. -/
  lookup : ∀ key id, id ∈ index.lookup now key ↔ ∃ call ∈ calls, call.id = id ∧ key ∈ call.keys
  /-- There are as many keys as different ones in the calls. -/
  size : index.size now = (calls.flatMap Recording.keys).dedup.length

/-- An index that only some events have touched. -/
theorem keeps_of_nothingDies (lasting : NothingDies ttl events now) :
    ((Index.empty ttl).play events).Keeps ttl (· ∈ now :: events.map Event.sees)
      (events.filterMap Event.posting?) := by
  simpa using (Keeps.empty ttl _).play lasting

/-- Events that carry out some calls, in any order, leave the index with exactly what the calls
record. -/
theorem holds_of_carryOut (lasting : NothingDies ttl events now)
    (carryOut : CarryOut events calls) :
    ((Index.empty ttl).play events).Holds now calls where
  lookup := by
    intro key id
    rw [(keeps_of_nothingDies lasting).mem_lookup List.mem_cons_self, carryOut.mem_iff,
      mem_flatMap_postings]
  size := by
    rw [(keeps_of_nothingDies lasting).size_eq List.mem_cons_self, ← map_snd_flatMap_postings]
    exact (carryOut.map Prod.snd).dedup.length_eq

/-- Calls that record the same, however often and in whichever order, make the same index. -/
theorem showsSame_of_carryOut {ttl' : Option Duration} {events' : List Event}
    {calls' : List Recording}
    (lasting : NothingDies ttl events now) (lasting' : NothingDies ttl' events' now)
    (carryOut : CarryOut events calls) (carryOut' : CarryOut events' calls')
    (same : ∀ posting, posting ∈ calls.flatMap Recording.postings ↔
      posting ∈ calls'.flatMap Recording.postings) :
    ShowsSame now ((Index.empty ttl).play events) ((Index.empty ttl').play events') := by
  refine (keeps_of_nothingDies lasting).same (keeps_of_nothingDies lasting') List.mem_cons_self
    List.mem_cons_self fun posting => ?_
  rw [carryOut.mem_iff, same, ← carryOut'.mem_iff]

end DocumentBase.Index
