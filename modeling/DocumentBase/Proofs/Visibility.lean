import DocumentBase.TimedMap
import Mathlib.Data.List.Forall2
import Mathlib.Data.List.Nodup

/-!
# DocumentBase.Proofs.Visibility

What can be seen of a map whose entries expire.  A map is used by a run of accesses, each of which
reads the clock; the clock never goes back.  What can be seen depends on the writes alone: under
each key there is the value of its last write, as long as that has time to live (`Written.visible`).
A write whose deadline is out of range is broken off, and writes nothing.  Dead entries may be there
still or may have been purged, and no access but a purge can tell.

1. A map *reflects* what has been written: an entry that is there is that of the last write, and
   what is missing is dead (`Reflects`).  Every access keeps this, and is answered from what has
   been written (`Reflects.access`).
2. So each answer of a run is that of the abstract map, and two runs that differ in their purges
   only have the same answers.  A purge takes the dead entries and no other, and leaves nothing to a
   second one (`refines_written`).
-/

namespace DocumentBase.TimedMap

variable {K V : Type}

/-! ## Accesses -/

/-- An access to a map, with the moments that the clock shows. -/
inductive Access (K V : Type) where
  | get (now : Instant) (key : K)
  | set (now : Instant) (key : K) (value : V)
  | upsert (now stamp : Instant) (key : K) (default : V) (update : V → V)
  | snapshot (now : Instant)
  | size (now : Instant)
  | purge (now : Instant)

namespace Access

/-- What the clock shows, reading by reading. -/
def readings : Access K V → List Instant
  | upsert now stamp .. => [now, stamp]
  | get now _ | set now .. | snapshot now | size now | purge now => [now]

/-- The last reading. -/
def ends : Access K V → Instant
  | upsert _ stamp .. => stamp
  | get now _ | set now .. | snapshot now | size now | purge now => now

def isPurge : Access K V → Bool
  | purge _ => true
  | _ => false

def isWrite : Access K V → Bool
  | set .. | upsert .. => true
  | _ => false

end Access

/-- The answer to an access. -/
inductive Answer (K V : Type) where
  | found (value : Option V)
  | done (outcome : Outcome Unit)
  /-- What an update has made. -/
  | wrote (outcome : Outcome V)
  | shown (entries : List (K × V))
  | counted (number : Nat)
  | removed (number : Nat)

/-- Two answers are the same; entries are shown in no particular order. -/
def Answer.Same : Answer K V → Answer K V → Prop
  | .shown entries, .shown others => entries.Perm others
  | answer, other => answer = other

section Runs

variable [DecidableEq K]

/-- The answer to an access, and the map that it leaves behind. -/
def access (map : TimedMap K V) : Access K V → Answer K V × TimedMap K V
  | .get now key => (.found (map.find? now key), map)
  | .set now key value =>
    let (outcome, next) := map.set now key value
    (.done outcome, next)
  | .upsert now stamp key default update =>
    let (outcome, next) := map.upsert now key default update stamp
    (.wrote outcome, next)
  | .snapshot now => (.shown (map.snapshot now), map)
  | .size now => (.counted (map.size now), map)
  | .purge now =>
    let (count, next) := map.purge now
    (.removed count, next)

/-- The map that some accesses leave behind. -/
def run (map : TimedMap K V) (accesses : List (Access K V)) : TimedMap K V :=
  accesses.foldl (fun map access => (map.access access).2) map

/-- The accesses of a run with their answers. -/
def transcript (map : TimedMap K V) : List (Access K V) → List (Access K V × Answer K V)
  | [] => []
  | access :: rest => (access, (map.access access).1) :: (map.access access).2.transcript rest

end Runs

/-- The clock shows nothing earlier than `latest`, and never goes back. -/
def ForwardFrom (latest : Instant) (accesses : List (Access K V)) : Prop :=
  (latest :: accesses.flatMap Access.readings).Pairwise (· ≤ ·)

/-- The clock never goes back. -/
def Forward (accesses : List (Access K V)) : Prop :=
  (accesses.flatMap Access.readings).Pairwise (· ≤ ·)

theorem Forward.from_zero {accesses : List (Access K V)} (h : Forward accesses) :
    ForwardFrom 0 accesses :=
  List.pairwise_cons.2 ⟨fun _ _ => Nat.zero_le _, h⟩

/-- The clock goes forward up to the end of an access and from there. -/
theorem ForwardFrom.split {latest : Instant} {access : Access K V} {rest : List (Access K V)}
    (h : ForwardFrom latest (access :: rest)) :
    ForwardFrom latest [access] ∧ ForwardFrom access.ends rest := by
  unfold ForwardFrom at *
  rw [List.flatMap_cons] at h
  constructor
  · rw [List.flatMap_singleton]
    exact h.sublist ((List.sublist_append_left _ _).cons_cons latest)
  · cases access <;> exact h.sublist (by simp [Access.readings, Access.ends])

theorem ForwardFrom.le_ends {latest : Instant} {access : Access K V}
    (h : ForwardFrom latest [access]) : latest ≤ access.ends := by
  cases access <;> simp_all [ForwardFrom, Access.readings, Access.ends]

/-! ## What has been written -/

/- The abstract state has neither deadlines nor entries, so there is nothing to purge: it knows the
last write under each key and when it was, and the time to live decides what of it can be seen. -/

/-- The abstract map: under each key the value of the last write, and its moment. -/
def Written (K V : Type) : Type := K → Option (V × Instant)

namespace Written

/-- Whether what was written at one moment still lives at another. -/
def lives (ttl : Option Duration) (written now : Instant) : Bool :=
  match ttl with
  | none => true
  | some span => now < written + span.toNanos

/-- The value that can be seen under a key. -/
def visible (ttl : Option Duration) (state : Written K V) (now : Instant) (key : K) : Option V :=
  match state key with
  | some (value, written) => if lives ttl written now then some value else none
  | none => none

/-- What was written last under a key is to be seen while it lives, and nothing else ever is. -/
theorem visible_of_last {ttl : Option Duration} {state : Written K V} {key : K} {value : V}
    {written : Instant} (last : state key = some (value, written)) (now : Instant) :
    state.visible ttl now key = if lives ttl written now then some value else none := by
  rw [visible, last]

/-- A list of what can be seen, each key once. -/
structure Lists (ttl : Option Duration) (state : Written K V) (now : Instant)
    (entries : List (K × V)) : Prop where
  nodup : (entries.map Prod.fst).Nodup
  mem : ∀ key value, (key, value) ∈ entries ↔ state.visible ttl now key = some value

/-- Two lists of what can be seen differ in their order only. -/
theorem Lists.perm {ttl : Option Duration} {state : Written K V} {now : Instant}
    {entries others : List (K × V)} (first : state.Lists ttl now entries)
    (second : state.Lists ttl now others) : entries.Perm others := by
  refine (List.perm_ext_iff_of_nodup first.nodup.of_map second.nodup.of_map).2 fun entry => ?_
  exact (first.mem _ _).trans (second.mem _ _).symm

/-- Nothing has been written. -/
def nothing : Written K V := fun _ => none

/-- How a write at a moment ends: it is broken off where its deadline is out of range. -/
def outcome {α : Type} (ttl : Option Duration) (moment : Instant) (answer : α) : Outcome α :=
  if moment.Fits ttl then .returned answer else .overflowed

/-- Whether an answer is that of the abstract map.  What a purge removes is not to be seen here. -/
def Agrees (ttl : Option Duration) (state : Written K V) : Access K V → Answer K V → Prop
  | .get now key, .found value => value = state.visible ttl now key
  | .set now .., .done done => done = outcome ttl now ()
  | .upsert now stamp key default update, .wrote wrote =>
    wrote = outcome ttl stamp (update ((state.visible ttl now key).getD default))
  | .snapshot now, .shown entries => state.Lists ttl now entries
  | .size now, .counted number => ∃ entries, state.Lists ttl now entries ∧ number = entries.length
  | .purge _, .removed _ => True
  | _, _ => False

/-- What has been written leaves one answer to every access but a purge. -/
theorem same_of_agrees {ttl : Option Duration} {state : Written K V} {access : Access K V}
    {answer other : Answer K V} (isPurge : access.isPurge = false)
    (first : state.Agrees ttl access answer) (second : state.Agrees ttl access other) :
    answer.Same other := by
  cases access with
  | get now key => cases answer <;> cases other <;> simp_all [Agrees, Answer.Same]
  | set now key value => cases answer <;> cases other <;> simp_all [Agrees, Answer.Same]
  | upsert now stamp key default update =>
    cases answer <;> cases other <;> simp_all [Agrees, Answer.Same]
  | snapshot now =>
    cases answer <;> cases other <;> simp_all only [Agrees, Answer.Same]
    exact first.perm second
  | size now =>
    cases answer <;> cases other <;> simp_all only [Agrees, Answer.Same]
    obtain ⟨entries, lists, rfl⟩ := first
    obtain ⟨others, lists', rfl⟩ := second
    rw [(lists.perm lists').length_eq]
  | purge now => cases isPurge

/-- A state and an access, and that access, which is no purge, with an answer that agrees. -/
structure Meets (ttl : Option Duration) (met : Written K V × Access K V)
    (entry : Access K V × Answer K V) : Prop where
  same : entry.1 = met.2
  isPurge : entry.1.isPurge = false
  agrees : met.1.Agrees ttl entry.1 entry.2

/-- What meets the same states are the same accesses with the same answers. -/
theorem same_of_meets {ttl : Option Duration} {met : List (Written K V × Access K V)}
    {entries others : List (Access K V × Answer K V)}
    (first : List.Forall₂ (Meets ttl) met entries) (second : List.Forall₂ (Meets ttl) met others) :
    List.Forall₂ (fun entry other => entry.1 = other.1 ∧ entry.2.Same other.2) entries others := by
  induction first generalizing others with
  | nil =>
    cases second
    exact .nil
  | cons one _ ih =>
    obtain - | ⟨other, rest⟩ := second
    have accesses := one.same.trans other.same.symm
    refine .cons ⟨accesses, same_of_agrees one.isPurge one.agrees ?_⟩ (ih rest)
    rw [accesses]
    exact other.agrees

variable [DecidableEq K]

/-- What has been written after a write.  One that is broken off has written nothing. -/
def write (ttl : Option Duration) (state : Written K V) (key : K) (value : V) (moment : Instant) :
    Written K V := fun other =>
  if moment.Fits ttl ∧ other = key then some (value, moment) else state other

/-- A write that a clock can time is the last one under its key. -/
theorem write_of_fits {ttl : Option Duration} {moment : Instant} (fits : moment.Fits ttl)
    (state : Written K V) (key other : K) (value : V) :
    state.write ttl key value moment other =
      if other = key then some (value, moment) else state other := by
  simp only [write, fits, true_and]

/-- A write that no clock can time is broken off, and leaves what has been written as it was. -/
theorem write_of_not_fits {ttl : Option Duration} {moment : Instant} (fits : ¬moment.Fits ttl)
    (state : Written K V) (key : K) (value : V) : state.write ttl key value moment = state := by
  funext other
  simp only [write, fits, false_and, if_false]

/-- What has been written after an access.  An update starts from what can be seen, or else from its
default. -/
def next (ttl : Option Duration) (state : Written K V) : Access K V → Written K V
  | .set now key value => state.write ttl key value now
  | .upsert now stamp key default update =>
    state.write ttl key (update ((state.visible ttl now key).getD default)) stamp
  | .get .. | .snapshot _ | .size _ | .purge _ => state

/-- What some accesses have written. -/
def after (ttl : Option Duration) (accesses : List (Access K V)) : Written K V :=
  accesses.foldl (next ttl) nothing

/-- A purge writes nothing. -/
theorem next_of_isPurge {ttl : Option Duration} {state : Written K V} {access : Access K V}
    (isPurge : access.isPurge = true) : state.next ttl access = state := by
  cases access with
  | purge now => rfl
  | _ => cases isPurge

/-- The states that some accesses meet, with the accesses. -/
def trace (ttl : Option Duration) (state : Written K V) :
    List (Access K V) → List (Written K V × Access K V)
  | [] => []
  | access :: rest => (state, access) :: (state.next ttl access).trace ttl rest

end Written

/-! ## Purges -/

/-- A map without dead entries. -/
def Settled (map : TimedMap K V) (now : Instant) : Prop :=
  ∀ entry ∈ map.entries, entry.2.isExpired now = false

/-- Behind a purge nothing that is dead is left. -/
theorem settled_purge (map : TimedMap K V) (now : Instant) : (map.purge now).2.Settled now := by
  intro entry held
  simp only [purge, List.mem_filter] at held
  simpa using held.2

/-- Where nothing is dead a purge removes nothing. -/
theorem Settled.purge_eq {map : TimedMap K V} {now : Instant} (h : map.Settled now) :
    map.purge now = (0, map) := by
  have kept : (map.entries.filter fun entry => !entry.2.isExpired now) = map.entries :=
    List.filter_eq_self.2 fun entry held => by simp [h entry held]
  unfold purge
  simp [kept]

/-- Where nothing is dead, nothing but a write changes the map. -/
theorem Settled.run_eq [DecidableEq K] {map : TimedMap K V} {now : Instant}
    (h : map.Settled now) {accesses : List (Access K V)}
    (idle : ∀ access ∈ accesses, access.isWrite = false ∧ access.readings = [now]) :
    map.run accesses = map := by
  induction accesses with
  | nil => rfl
  | cons access accesses ih =>
    obtain ⟨⟨reads, moment⟩, others⟩ := List.forall_mem_cons.1 idle
    have stays : (map.access access).2 = map := by
      cases access with
      | get | snapshot | size => rfl
      | set | upsert => cases reads
      | purge moment' =>
        obtain rfl : moment' = now := by simpa [Access.readings] using moment
        simp [TimedMap.access, h.purge_eq]
    rw [run, List.foldl_cons, stays]
    exact ih others

/-! ## Maps and what has been written -/

/- The invariant of a run.  An entry that has been purged is missing from the map and not from the
abstract state, so all that can be said of it is that it is dead.  It stays dead since moments only
grow. -/

open Written

/-- What has been written is dead from its deadline on. -/
theorem isExpired_eq (ttl : Option Duration) (value : V) (written now : Instant) :
    (Stamped.mk value (ttl.map (written + ·.toNanos))).isExpired now = !lives ttl written now := by
  unfold Stamped.isExpired lives
  cases ttl with
  | none => rfl
  | some span => simp only [Option.map_some, ← decide_not, Nat.not_lt]

/-- What is dead stays dead. -/
theorem lives_of_le {ttl : Option Duration} {written now later : Instant} (order : now ≤ later)
    (dead : lives ttl written now = false) : lives ttl written later = false := by
  unfold lives at *
  cases ttl with
  | none => cases dead
  | some span =>
    simp only [decide_eq_false_iff_not, Nat.not_lt] at dead ⊢
    exact Nat.le_trans dead order

/-- What lives has lived before. -/
theorem lives_earlier {ttl : Option Duration} {written now later : Instant} (order : now ≤ later)
    (alive : lives ttl written later = true) : lives ttl written now = true := by
  by_contra dead
  rw [lives_of_le order (Bool.eq_false_iff.2 dead)] at alive
  cases alive

variable [DecidableEq K]

/-- A map as of some moment, seen as what has been written: each entry that is there is that of the
last write, and where none is there the last write is dead. -/
structure Reflects (map : TimedMap K V) (ttl : Option Duration) (state : Written K V)
    (latest : Instant) : Prop where
  ttl_eq : map.ttl = ttl
  present : ∀ {key entry}, map.stamped? key = some entry →
    ∃ written, state key = some (entry.value, written) ∧
      entry.deadline = ttl.map (written + ·.toNanos)
  missing : ∀ {key value written}, map.stamped? key = none → state key = some (value, written) →
    lives ttl written latest = false

namespace Reflects

variable {map : TimedMap K V} {ttl : Option Duration} {state : Written K V}
  {latest now : Instant} {key : K} {value : V}

theorem empty (ttl : Option Duration) (latest : Instant) :
    (TimedMap.empty ttl : TimedMap K V).Reflects ttl nothing latest where
  ttl_eq := rfl
  present := by simp [stamped?, TimedMap.empty]
  missing := by simp [nothing]

/-- A map that reflects what has been written does so later too, for what is dead stays dead. -/
theorem mono (h : map.Reflects ttl state latest) (order : latest ≤ now) :
    map.Reflects ttl state now where
  ttl_eq := h.ttl_eq
  present := h.present
  missing := fun absent last => lives_of_le order (h.missing absent last)

/-- An entry is dead exactly when nothing can be seen under its key. -/
theorem isExpired_entry (h : map.Reflects ttl state latest) {entry : Stamped V}
    (held : map.stamped? key = some entry) (now : Instant) :
    entry.isExpired now = (state.visible ttl now key).isNone := by
  obtain ⟨written, last, stamp⟩ := h.present held
  obtain ⟨value, deadline⟩ := entry
  obtain rfl : deadline = ttl.map (written + ·.toNanos) := stamp
  rw [isExpired_eq, visible_of_last last]
  cases lives ttl written now <;> rfl

/-- What is found is what can be seen. -/
theorem find?_eq (h : map.Reflects ttl state latest) (order : latest ≤ now) (key : K) :
    map.find? now key = state.visible ttl now key := by
  unfold find?
  cases held : map.stamped? key with
  | some entry =>
    obtain ⟨written, last, -⟩ := h.present held
    have dead := h.isExpired_entry held now
    rw [visible_of_last last] at dead ⊢
    dsimp only
    rw [dead]
    cases lives ttl written now <;> rfl
  | none =>
    unfold visible
    cases last : state key with
    | none => rfl
    | some write => simp [lives_of_le order (h.missing held last)]

/-- A write that a clock can time keeps the map and what has been written together. -/
theorem put (h : map.Reflects ttl state latest) {written : Instant} (fits : written.Fits ttl)
    (key : K) (value : V) :
    (map.put key ⟨value, ttl.map (written + ·.toNanos)⟩).Reflects ttl
      (state.write ttl key value written) latest where
  ttl_eq := h.ttl_eq
  present := by
    intro other entry held
    rw [stamped?_put] at held
    rw [write_of_fits fits]
    split at held
    · next same =>
      cases held
      exact ⟨written, by simp [same], rfl⟩
    · next different =>
      rw [if_neg different]
      exact h.present held
  missing := by
    intro other value' written' absent last
    rw [stamped?_put] at absent
    rw [write_of_fits fits] at last
    split at absent
    · cases absent
    · next different =>
      rw [if_neg different] at last
      exact h.missing absent last

/-- A write ends as its moment says, and what it leaves behind reflects that. -/
theorem set (h : map.Reflects ttl state latest) (written : Instant) (key : K) (value : V) :
    (map.set written key value).1 = outcome ttl written () ∧
      (map.set written key value).2.Reflects ttl (state.write ttl key value written) latest := by
  by_cases fits : written.Fits ttl
  · rw [set_of_fits (by rwa [h.ttl_eq]), h.ttl_eq, outcome, if_pos fits]
    exact ⟨rfl, h.put fits key value⟩
  · rw [set_of_not_fits (by rwa [h.ttl_eq]), outcome, if_neg fits, write_of_not_fits fits]
    exact ⟨rfl, h⟩

/-- So does an update, whose answer is what it makes of what can be seen. -/
theorem upsert (h : map.Reflects ttl state latest) (order : latest ≤ now) (stamp : Instant)
    (key : K) (default : V) (update : V → V) :
    (map.upsert now key default update stamp).1 =
        outcome ttl stamp (update ((state.visible ttl now key).getD default)) ∧
      (map.upsert now key default update stamp).2.Reflects ttl
        (state.next ttl (.upsert now stamp key default update)) latest := by
  rw [TimedMap.upsert, h.find?_eq order key]
  obtain ⟨ends, reflects⟩ := h.set stamp key (update ((state.visible ttl now key).getD default))
  refine ⟨?_, reflects⟩
  simp only [ends, outcome]
  split <;> rfl

/-- A purge removes dead entries only, so there is nothing to be seen that was not before. -/
theorem purge (h : map.Reflects ttl state latest) (order : latest ≤ now) :
    (map.purge now).2.Reflects ttl state now where
  ttl_eq := h.ttl_eq
  present := by
    intro key entry held
    rw [stamped?_purge, Option.filter_eq_some_iff] at held
    exact h.present held.1
  missing := by
    intro key value written absent last
    rw [stamped?_purge] at absent
    cases held : map.stamped? key with
    | none => exact lives_of_le order (h.missing held last)
    | some entry =>
      -- The entry was there and has been removed, so it was dead.
      have dead := h.isExpired_entry held now
      rw [visible_of_last last] at dead
      cases alive : lives ttl written now <;> simp_all

/-- A snapshot lists what is to be seen, each key once. -/
theorem lists_snapshot (h : map.Reflects ttl state latest) (order : latest ≤ now) :
    state.Lists ttl now (map.snapshot now) where
  nodup := map.nodup_snapshot now
  mem := by
    intro key value
    rw [mem_snapshot, h.find?_eq order]

/-- An access is answered from what has been written, and the map goes on reflecting it. -/
theorem access (h : map.Reflects ttl state latest) {access : Access K V}
    (forward : ForwardFrom latest [access]) :
    state.Agrees ttl access (map.access access).1 ∧
      (map.access access).2.Reflects ttl (state.next ttl access) access.ends := by
  have order := forward.le_ends
  cases access with
  | get now key => exact ⟨h.find?_eq order key, h.mono order⟩
  | set now key value =>
    obtain ⟨ends, reflects⟩ := h.set now key value
    exact ⟨ends, reflects.mono order⟩
  | upsert now stamp key default update =>
    -- What is live is looked up at the first reading, the deadline is that of the second.
    have first : latest ≤ now := by
      simp only [ForwardFrom, Access.readings, List.flatMap_singleton,
        List.pairwise_cons] at forward
      exact forward.1 now List.mem_cons_self
    obtain ⟨ends, reflects⟩ := h.upsert first stamp key default update
    exact ⟨ends, reflects.mono order⟩
  | snapshot now => exact ⟨h.lists_snapshot order, h.mono order⟩
  | size now => exact ⟨⟨_, h.lists_snapshot order, (map.length_snapshot now).symm⟩, h.mono order⟩
  | purge now => exact ⟨trivial, h.purge order⟩

/-- A run keeps a map reflecting what has been written. -/
theorem run (h : map.Reflects ttl state latest) {accesses rest : List (Access K V)}
    (forward : ForwardFrom latest (accesses ++ rest)) :
    ∃ later, (map.run accesses).Reflects ttl (accesses.foldl (next ttl) state) later ∧
      ForwardFrom later rest := by
  induction accesses generalizing map state latest with
  | nil => exact ⟨latest, h, forward⟩
  | cons access accesses ih =>
    obtain ⟨first, others⟩ := forward.split
    exact ih (h.access first).2 others

/-- The accesses of a run that are no purges are answered from what has been written. -/
theorem transcript_agrees (h : map.Reflects ttl state latest) {accesses : List (Access K V)}
    (forward : ForwardFrom latest accesses) :
    List.Forall₂ (Meets ttl) (state.trace ttl (accesses.filter (!·.isPurge)))
      ((map.transcript accesses).filter (!·.1.isPurge)) := by
  induction accesses generalizing map state latest with
  | nil => exact .nil
  | cons access accesses ih =>
    obtain ⟨first, others⟩ := forward.split
    obtain ⟨agrees, reflects⟩ := h.access first
    have rest := ih reflects others
    cases isPurge : access.isPurge with
    | true =>
      rw [next_of_isPurge isPurge] at rest
      simpa [transcript, isPurge] using rest
    | false => simpa [transcript, trace, isPurge] using ⟨⟨rfl, isPurge, agrees⟩, rest⟩

/-- A purge removes what is not visible, and counts it. -/
theorem purge_eq (h : map.Reflects ttl state latest) (now : Instant) :
    (map.purge now).1 = map.entries.countP (fun entry => (state.visible ttl now entry.1).isNone) ∧
      ∀ entry, entry ∈ (map.purge now).2.entries ↔
        entry ∈ map.entries ∧ (state.visible ttl now entry.1).isSome := by
  have dead : ∀ entry ∈ map.entries,
      entry.2.isExpired now = (state.visible ttl now entry.1).isNone :=
    fun entry held => h.isExpired_entry (stamped?_eq_some_iff.2 held) now
  constructor
  · rw [purge_fst]
    exact List.countP_congr fun entry held => by rw [dead entry held]
  · intro entry
    simp only [TimedMap.purge, List.mem_filter]
    exact and_congr_right fun held => by simp [dead entry held]

end Reflects

/-! ## The map and its abstraction -/

/-- A map whose entries expire is an abstract one.  Every access of a run is answered from what has
been written so far: under each key there is the value of its last write as long as that lives, an
update starts from what is there, and entries are shown once each.  A write is broken off exactly
where its deadline is out of range, and has written nothing then.  Runs that differ in their purges
only have the same answers.  A purge removes the entries of which nothing can be seen and counts
them, so nothing is left for a second one at the same moment. -/
theorem refines_written (ttl : Option Duration) :
    (∀ (accesses : List (Access K V)) (access : Access K V), Forward (accesses ++ [access]) →
      (after ttl accesses).Agrees ttl access (((empty ttl).run accesses).access access).1) ∧
    (∀ accesses others : List (Access K V), Forward accesses → Forward others →
      accesses.filter (!·.isPurge) = others.filter (!·.isPurge) →
      List.Forall₂ (fun entry other => entry.1 = other.1 ∧ entry.2.Same other.2)
        (((empty ttl).transcript accesses).filter (!·.1.isPurge))
        (((empty ttl).transcript others).filter (!·.1.isPurge))) ∧
    ∀ (accesses : List (Access K V)) (now : Instant), Forward (accesses ++ [.purge now]) →
      let map := (empty ttl).run accesses
      let seen := (after ttl accesses).visible ttl now
      (map.purge now).1 = map.entries.countP (fun entry => (seen entry.1).isNone) ∧
      (∀ entry, entry ∈ (map.purge now).2.entries ↔ entry ∈ map.entries ∧ (seen entry.1).isSome) ∧
      ∀ between : List (Access K V),
        (∀ access ∈ between, access.isWrite = false ∧ access.readings = [now]) →
        (((map.purge now).2.run between).purge now).1 = 0 := by
  refine ⟨?_, ?_, ?_⟩
  · intro accesses access forward
    obtain ⟨later, reflects, last⟩ := (Reflects.empty ttl 0).run forward.from_zero
    exact (reflects.access last).1
  · intro accesses others forward forward' same
    have first := (Reflects.empty ttl 0).transcript_agrees forward.from_zero
    have second := (Reflects.empty ttl 0).transcript_agrees forward'.from_zero
    rw [same] at first
    exact same_of_meets first second
  · intro accesses now forward
    obtain ⟨later, reflects, -⟩ := (Reflects.empty ttl 0).run forward.from_zero
    obtain ⟨count, kept⟩ := reflects.purge_eq now
    refine ⟨count, kept, fun between idle => ?_⟩
    have settled := settled_purge ((empty ttl).run accesses) now
    rw [settled.run_eq idle, settled.purge_eq]

/-- At its deadline an entry is dead.  An update at that moment starts from the default, whether the
entry is there still or has been purged, and lives its own full time.  With a time to live beyond
all moments a set is broken off, and leaves nothing to be seen. -/
theorem refines_written_lingering :
    let ttl : Option Duration := some ⟨0, 10, by decide, by decide⟩
    let beyond : Option Duration := some ⟨0xffffffffffffffff, 0, by decide, by decide⟩
    let update : Access Nat Nat := .upsert 10 11 1 0 (· + 1)
    let lingering : List (Access Nat Nat) := [.set 0 1 5, update, .get 20 1, .get 21 1]
    let purged : List (Access Nat Nat) :=
      [.set 0 1 5, .purge 10, .purge 10, update, .get 20 1, .purge 21, .get 21 1]
    (Forward lingering ∧ Forward purged) ∧
      (after ttl [.set 0 1 5]).Agrees ttl update (.wrote (.returned 1)) ∧
      List.Forall₂ (fun entry other => entry.1 = other.1 ∧ entry.2.Same other.2)
        (((empty ttl).transcript lingering).filter (!·.1.isPurge))
        (((empty ttl).transcript purged).filter (!·.1.isPurge)) ∧
      (((empty ttl).run [.set 0 1 5]).purge 10).1 = 1 ∧
      (after beyond ([] : List (Access Nat Nat))).Agrees beyond (.set 0 1 5) (.done .overflowed) ∧
      (after beyond [.set 0 1 5]).Agrees beyond (.get 0 1) (.found none) := by
  intro ttl beyond update lingering purged
  have forward : Forward lingering ∧ Forward purged := by
    simp [Forward, Access.readings, lingering, purged, update]
  refine ⟨forward, ?_, ?_, ?_, ?_, ?_⟩
  · exact (refines_written ttl).1 [.set 0 1 5] update (by simp [Forward, Access.readings, update])
  · exact (refines_written ttl).2.1 lingering purged forward.1 forward.2 rfl
  · exact ((refines_written ttl).2.2 [.set 0 1 5] 10 (by simp [Forward, Access.readings])).1
  · exact (refines_written beyond).1 [] (.set 0 1 5) (by simp [Forward, Access.readings])
  · exact (refines_written beyond).1 [.set 0 1 5] (.get 0 1) (by simp [Forward, Access.readings])

end DocumentBase.TimedMap
