import DocumentBase.Engine
import DocumentBase.Proofs.Collecting
import Mathlib.Data.List.Nodup

/-!
# DocumentBase.Proofs.Execution

What a query returns, for an engine whose index and documents may have drifted apart in any way: the
index can know documents that are gone or were never there, documents can be missing from it or be
recorded under foreign keys, and stored documents need not decode.

1. Counting what the index has under the keys of the clauses finds the identifiers that are under
   *every* key (`mem_tally_perm`): a key holds each identifier once, so a clause adds at most
   one, also where two clauses share a key.
2. Verifying a candidate has three outcomes (`verify_eq_error_iff`, `verify_eq_some_iff`): it is not
   there, it does not decode, or it is a document that is tried against the clauses.
3. Candidates are counted and verified in an order that nobody fixes: a `Course` is one such order,
   and all of them give the same answer (`execute_exact`).
-/

namespace DocumentBase

/-! ## The documents that are read -/

namespace DocumentStore

/-- Whether a live document is stored under the identifier that does not decode. -/
def Unreadable (store : DocumentStore) (now : Instant) (id : DocId) : Prop :=
  ∃ stored reason, store.documents.find? now id = some stored ∧
    Document.decode stored = .error reason

variable {store : DocumentStore} {now : Instant} {id : DocId}

@[simp] theorem decodeStored_eq_ok_iff {stored : List UInt8} {doc : Document} :
    decodeStored id stored = .ok doc ↔ Document.decode stored = .ok doc := by
  unfold decodeStored
  cases Document.decode stored <;> simp [Except.mapError]

/-- A stored document that cannot be decoded is reported as corrupt, under its identifier. -/
@[simp] theorem decodeStored_eq_error_iff {stored : List UInt8} {e : Error} :
    decodeStored id stored = .error e ↔
      ∃ reason, Document.decode stored = .error reason ∧ e = .corrupt id reason := by
  unfold decodeStored
  cases Document.decode stored <;> simp [Except.mapError, eq_comm]

/-- What can be got is what is live and decodes. -/
theorem get_eq_ok_iff {doc : Document} :
    store.get now id = .ok doc ↔
      ∃ stored, store.documents.find? now id = some stored ∧ Document.decode stored = .ok doc := by
  unfold get
  cases store.documents.find? now id with
  | none => simp
  | some stored => simp

/-! ## Listing the documents -/

/-- How one entry of a snapshot is read. -/
def readEntry (entry : DocId × List UInt8) : Except Error (DocId × Document) :=
  (decodeStored entry.1 entry.2).map fun doc => (entry.1, doc)

/-- All documents are what every entry of the snapshot reads as. -/
theorem getAll_eq : store.getAll now = (store.documents.snapshot now).mapM readEntry := rfl

@[simp] theorem readEntry_eq_ok_iff {stored : List UInt8} {read : DocId × Document} :
    readEntry (id, stored) = .ok read ↔ read.1 = id ∧ Document.decode stored = .ok read.2 := by
  obtain ⟨other, doc⟩ := read
  rw [← @decodeStored_eq_ok_iff id, readEntry]
  cases decodeStored id stored <;> simp [Except.map, eq_comm]

/-- An entry that cannot be read is reported as corrupt. -/
@[simp] theorem readEntry_eq_error_iff {stored : List UInt8} {e : Error} :
    readEntry (id, stored) = .error e ↔
      ∃ reason, Document.decode stored = .error reason ∧ e = .corrupt id reason := by
  rw [← decodeStored_eq_error_iff, readEntry]
  cases decodeStored id stored <;> simp [Except.map]

/-- The documents cannot be listed exactly when one of them is unreadable. -/
theorem getAll_error_iff :
    (∃ e, store.getAll now = .error e) ↔ ∃ id, store.Unreadable now id := by
  rw [getAll_eq, Collecting.mapM_error_iff]
  constructor
  · rintro ⟨⟨id, stored⟩, shown, e, failed⟩
    obtain ⟨reason, malformed, -⟩ := readEntry_eq_error_iff.1 failed
    exact ⟨id, stored, reason, TimedMap.mem_snapshot.1 shown, malformed⟩
  · rintro ⟨id, stored, reason, found, malformed⟩
    exact ⟨(id, stored), TimedMap.mem_snapshot.2 found, .corrupt id reason,
      readEntry_eq_error_iff.2 ⟨reason, malformed, rfl⟩⟩

/-- Listing all documents fails on a corrupt one only. -/
theorem corrupt_of_getAll_eq_error {e : Error} (h : store.getAll now = .error e) :
    ∃ id reason, e = .corrupt id reason := by
  rw [getAll_eq] at h
  obtain ⟨⟨id, stored⟩, -, failed⟩ := Collecting.exists_of_mapM_eq_error h
  obtain ⟨reason, -, rfl⟩ := readEntry_eq_error_iff.1 failed
  exact ⟨id, reason, rfl⟩

/-- A listing shows exactly the documents that can be got. -/
theorem mem_of_getAll_eq_ok {all : List (DocId × Document)} (h : store.getAll now = .ok all)
    {doc : Document} : (id, doc) ∈ all ↔ store.get now id = .ok doc := by
  rw [getAll_eq] at h
  rw [Collecting.mem_iff_of_mapM_eq_ok h, get_eq_ok_iff]
  constructor
  · rintro ⟨⟨other, stored⟩, shown, read⟩
    obtain ⟨rfl, decoded⟩ := readEntry_eq_ok_iff.1 read
    exact ⟨stored, TimedMap.mem_snapshot.1 shown, decoded⟩
  · rintro ⟨stored, found, decoded⟩
    exact ⟨(id, stored), TimedMap.mem_snapshot.2 found, readEntry_eq_ok_iff.2 ⟨rfl, decoded⟩⟩

/-- A listing shows each identifier once. -/
theorem nodup_of_getAll_eq_ok {all : List (DocId × Document)} (h : store.getAll now = .ok all) :
    (all.map Prod.fst).Nodup := by
  rw [getAll_eq, Collecting.mapM_eq_ok_iff] at h
  have same : all.map Prod.fst = (store.documents.snapshot now).map Prod.fst := by
    generalize store.documents.snapshot now = entries at h ⊢
    induction h with
    | nil => rfl
    | cons read _ ih => rw [List.map_cons, List.map_cons, ih, (readEntry_eq_ok_iff.1 read).1]
  rw [same]
  exact store.documents.nodup_snapshot now

end DocumentStore

namespace Engine

variable {engine : Engine} {now : Instant} {query : Query} {candidate : DocId}

/-! ## Counting -/

/- No set has an identifier twice.  So an identifier has come up once for each set that has it, and
it is in all sets exactly if it has come up as often as there are sets, in whatever order they were
gone through. -/

/-- Whether the index has an identifier under the key of every clause. -/
def Proposes (engine : Engine) (now : Instant) (clauses : List Clause) (id : DocId) : Prop :=
  ∀ clause ∈ clauses, id ∈ engine.index.lookup now clause.indexKey

/-- Counting what was found under `keys` keys: the identifiers that came up under all of them. -/
def tally (found : List DocId) (keys : Nat) : List DocId :=
  found.eraseDups.filter fun id => found.count id == keys

/-- A set contributes an identifier once or not at all. -/
theorem count_ids (set : IdSet) (id : DocId) :
    set.ids.count id = if id ∈ set.ids then 1 else 0 := by
  split
  · next held => exact List.count_eq_one_of_mem set.nodup held
  · next absent => exact List.count_eq_zero.2 absent

/-- Each clause contributes at most one, so the count is that of the clauses whose key has the
identifier. -/
theorem count_postings (engine : Engine) (now : Instant) (clauses : List Clause) (id : DocId) :
    (engine.postings now clauses).count id =
      clauses.countP fun clause => id ∈ (engine.index.lookup now clause.indexKey).ids := by
  induction clauses with
  | nil => rfl
  | cons clause rest ih =>
    rw [postings, List.flatMap_cons, List.count_append, ← postings, ih, count_ids,
      List.countP_cons, Nat.add_comm]
    simp only [decide_eq_true_eq]

/-- The count reaches the number of clauses exactly for what every key has. -/
theorem count_postings_eq_length_iff {clauses : List Clause} :
    (engine.postings now clauses).count candidate = clauses.length ↔
      engine.Proposes now clauses candidate := by
  rw [count_postings, List.countP_eq_length]
  simp only [decide_eq_true_eq]
  rfl

theorem nodup_eraseDups : (found : List DocId) → found.eraseDups.Nodup
  | [] => List.nodup_nil
  | id :: rest => by
    rw [List.eraseDups_cons, List.nodup_cons]
    refine ⟨fun held => ?_, nodup_eraseDups _⟩
    have other := (List.mem_filter.1 (List.mem_eraseDups.1 held)).2
    simp at other
termination_by found => found.length
decreasing_by exact Nat.lt_succ_of_le (List.length_filter_le _ _)

theorem nodup_tally (found : List DocId) (keys : Nat) : (tally found keys).Nodup :=
  (nodup_eraseDups found).sublist List.filter_sublist

/-- The identifiers that remain are those that came up as often as there are keys. -/
theorem mem_tally {found : List DocId} {keys : Nat} (pos : 0 < keys) :
    candidate ∈ tally found keys ↔ found.count candidate = keys := by
  rw [tally, List.mem_filter, List.mem_eraseDups, beq_iff_eq]
  exact ⟨And.right, fun count => ⟨List.count_pos_iff.1 (count ▸ pos), count⟩⟩

/-- Counting finds the identifiers that every key has, in whatever order it goes. -/
theorem mem_tally_perm {clauses : List Clause} (nonempty : clauses ≠ []) {found : List DocId}
    (perm : found.Perm (engine.postings now clauses)) :
    candidate ∈ tally found clauses.length ↔ engine.Proposes now clauses candidate := by
  rw [mem_tally (List.length_pos_iff.2 nonempty), perm.count_eq, count_postings_eq_length_iff]

/-! ## Verifying -/

theorem matches_iff {query : Query} {doc : Document} :
    query.matches doc = true ↔ ∀ clause ∈ query.clauses, clause.holds doc = true := by
  rw [Query.matches, Document.satisfiesAll, List.all_eq_true]

/-- Verification fails on a live document that does not decode, and on nothing else. -/
theorem verify_eq_error_iff {e : Error} :
    engine.verify now query candidate = .error e ↔
      ∃ stored reason, engine.documents.documents.find? now candidate = some stored ∧
        Document.decode stored = .error reason ∧ e = .corrupt candidate reason := by
  unfold verify DocumentStore.get
  cases engine.documents.documents.find? now candidate with
  | none => simp
  | some stored =>
    cases decoded : Document.decode stored with
    | ok doc => simp [DocumentStore.decodeStored, decoded, Except.mapError]
    | error reason => simp [DocumentStore.decodeStored, decoded, Except.mapError, eq_comm]

/-- A candidate is a hit when it is there, decodes and satisfies the query. -/
theorem verify_eq_some_iff {hit : Hit} :
    engine.verify now query candidate = .ok (some hit) ↔
      hit.id = candidate ∧ engine.documents.get now candidate = .ok hit.document ∧
        query.matches hit.document = true := by
  obtain ⟨other, doc⟩ := hit
  unfold verify
  cases got : engine.documents.get now candidate with
  | error e => cases e <;> simp
  | ok doc' =>
    by_cases good : query.matches doc' = true
    · simp only [good, if_true, Except.ok.injEq, Option.some.injEq, Hit.mk.injEq]
      constructor
      · rintro ⟨rfl, rfl⟩
        exact ⟨rfl, rfl, good⟩
      · rintro ⟨rfl, rfl, -⟩
        exact ⟨rfl, rfl⟩
    · simp only [good, Except.ok.injEq]
      constructor
      · intro h
        cases h
      · rintro ⟨-, rfl, holds⟩
        exact absurd holds good

/-- The hits among some candidates, verified one after another. -/
def hitsAmong (engine : Engine) (now : Instant) (query : Query) (visited : List DocId) :
    Except Error (List Hit) :=
  (visited.mapM (engine.verify now query)).map (·.filterMap id)

/-- A query with clauses goes through its candidates. -/
theorem execute_eq (engine : Engine) (now : Instant) {query : Query}
    (nonempty : query.clauses ≠ []) :
    engine.execute now query =
      engine.hitsAmong now query (engine.candidates now query.clauses) := by
  rw [execute, if_neg (by simpa [Query.isEmpty] using nonempty)]
  rfl

/-- Going through some documents fails exactly if one of them cannot be decoded. -/
theorem hitsAmong_error_iff {visited : List DocId} :
    (∃ e, engine.hitsAmong now query visited = .error e) ↔
      ∃ id ∈ visited, engine.documents.Unreadable now id := by
  simp only [hitsAmong, Collecting.map_eq_error_iff]
  rw [Collecting.mapM_error_iff]
  constructor
  · rintro ⟨id, held, e, failed⟩
    obtain ⟨stored, reason, found, malformed, -⟩ := verify_eq_error_iff.1 failed
    exact ⟨id, held, stored, reason, found, malformed⟩
  · rintro ⟨id, held, stored, reason, found, malformed⟩
    exact ⟨id, held, _, verify_eq_error_iff.2 ⟨stored, reason, found, malformed, rfl⟩⟩

theorem internal_of_hitsAmong_eq_error {visited : List DocId} {e : Error}
    (h : engine.hitsAmong now query visited = .error e) : e.report.kind = .internal := by
  have collected := Collecting.map_eq_error_iff.1 h
  obtain ⟨id, -, failed⟩ := Collecting.exists_of_mapM_eq_error collected
  obtain ⟨stored, reason, -, -, rfl⟩ := verify_eq_error_iff.1 failed
  rfl

/-- The hits are the documents that have been visited, are still stored and match. -/
theorem mem_of_hitsAmong_eq_ok {visited : List DocId} {hits : List Hit}
    (h : engine.hitsAmong now query visited = .ok hits) {hit : Hit} :
    hit ∈ hits ↔ hit.id ∈ visited ∧ engine.documents.get now hit.id = .ok hit.document ∧
      query.matches hit.document = true := by
  obtain ⟨found, collected, rfl⟩ := Collecting.map_eq_ok_iff.1 h
  simp only [List.mem_filterMap, id_eq, exists_eq_right]
  rw [Collecting.mem_iff_of_mapM_eq_ok collected]
  constructor
  · rintro ⟨id, held, verified⟩
    obtain ⟨rfl, got, good⟩ := verify_eq_some_iff.1 verified
    exact ⟨held, got, good⟩
  · rintro ⟨held, got, good⟩
    exact ⟨hit.id, held, verify_eq_some_iff.2 ⟨rfl, got, good⟩⟩

/-- The hits are some of the candidates, in the order of the candidates. -/
theorem sublist_of_hitsAmong_eq_ok {visited : List DocId} {hits : List Hit}
    (h : engine.hitsAmong now query visited = .ok hits) : (hits.map (·.id)).Sublist visited := by
  obtain ⟨found, collected, rfl⟩ := Collecting.map_eq_ok_iff.1 h
  clear h
  rw [Collecting.mapM_eq_ok_iff] at collected
  induction collected with
  | nil => exact .slnil
  | @cons candidate verdict _ _ verified _ ih =>
    cases verdict with
    | none => exact ih.cons candidate
    | some hit =>
      simp only [List.filterMap_cons, id_eq, List.map_cons]
      rw [(verify_eq_some_iff.1 verified).1]
      exact ih.cons_cons candidate

/-! ## Every order -/

/- Neither the order in which identifiers come up nor that of the candidates is specified.  A course
is a choice of both, and what holds of the answers on all courses does not depend on that choice. -/

/-- One course that answering a query can take: the order in which what the index has is counted,
and the order in which the candidates that come of it are verified. -/
structure Course (engine : Engine) (now : Instant) (clauses : List Clause) where
  found : List DocId
  visited : List DocId
  found_perm : found.Perm (engine.postings now clauses)
  visited_perm : visited.Perm (tally found clauses.length)

/-- The answer on this course. -/
def Course.answer (course : Course engine now query.clauses) : Except Error (List Hit) :=
  engine.hitsAmong now query course.visited

/-- Every course visits the documents that the index proposes, and no others. -/
theorem Course.mem_visited_iff (course : Course engine now query.clauses)
    (nonempty : query.clauses ≠ []) :
    candidate ∈ course.visited ↔ engine.Proposes now query.clauses candidate := by
  rw [course.visited_perm.mem_iff, mem_tally_perm nonempty course.found_perm]

/-- No course visits a document twice. -/
theorem Course.nodup_visited (course : Course engine now query.clauses) : course.visited.Nodup :=
  course.visited_perm.nodup_iff.2 (nodup_tally _ _)

/-- The course that the engine takes. -/
def Course.straight (engine : Engine) (now : Instant) (clauses : List Clause) :
    Course engine now clauses :=
  ⟨engine.postings now clauses, engine.candidates now clauses, .refl _, .refl _⟩

/-- The order that execution takes is one course among all. -/
theorem execute_eq_answer (engine : Engine) (now : Instant) {query : Query}
    (nonempty : query.clauses ≠ []) :
    engine.execute now query = (Course.straight engine now query.clauses).answer :=
  execute_eq engine now nonempty

/-- Two answers are the same: the same hits in some order, or failures of one kind. -/
def SameAnswer : Except Error (List Hit) → Except Error (List Hit) → Prop
  | .ok hits, .ok others => hits.Perm others
  | .error e, .error other => e.report.kind = other.report.kind
  | _, _ => False

namespace Course

/-- Whether a course fails depends on the documents that are proposed, not on their order. -/
theorem answer_error_iff (course : Course engine now query.clauses)
    (nonempty : query.clauses ≠ []) :
    (∃ e, course.answer = .error e) ↔
      ∃ id, engine.Proposes now query.clauses id ∧ engine.documents.Unreadable now id := by
  rw [answer, hitsAmong_error_iff]
  simp only [course.mem_visited_iff nonempty]

/-- The hits on every course are the proposed documents that fulfil all clauses. -/
theorem mem_of_answer_eq_ok (course : Course engine now query.clauses)
    (nonempty : query.clauses ≠ []) {hits : List Hit} (h : course.answer = .ok hits) {hit : Hit} :
    hit ∈ hits ↔
      engine.Proposes now query.clauses hit.id ∧
        engine.documents.get now hit.id = .ok hit.document ∧
        ∀ clause ∈ query.clauses, clause.holds hit.document = true := by
  rw [mem_of_hitsAmong_eq_ok h, course.mem_visited_iff nonempty, matches_iff]

theorem nodup_of_answer_eq_ok (course : Course engine now query.clauses) {hits : List Hit}
    (h : course.answer = .ok hits) : (hits.map (·.id)).Nodup :=
  course.nodup_visited.sublist (sublist_of_hitsAmong_eq_ok h)

/-- The order changes neither whether there is an answer nor what the hits are. -/
theorem sameAnswer (course other : Course engine now query.clauses)
    (nonempty : query.clauses ≠ []) : SameAnswer course.answer other.answer := by
  have fails := (course.answer_error_iff nonempty).trans (other.answer_error_iff nonempty).symm
  cases h : course.answer with
  | error e =>
    cases h' : other.answer with
    | error e' =>
      exact (internal_of_hitsAmong_eq_error h).trans (internal_of_hitsAmong_eq_error h').symm
    | ok hits => simp [h, h'] at fails
  | ok hits =>
    cases h' : other.answer with
    | error e' => simp [h, h'] at fails
    | ok others =>
      refine (List.perm_ext_iff_of_nodup (course.nodup_of_answer_eq_ok h).of_map
        (other.nodup_of_answer_eq_ok h').of_map).2 fun hit => ?_
      rw [course.mem_of_answer_eq_ok nonempty h, other.mem_of_answer_eq_ok nonempty h']

end Course

/-! ## Scanning -/

/-- A scan filters all documents. -/
theorem scan_eq (engine : Engine) (now : Instant) {query : Query} (nonempty : query.clauses ≠ []) :
    engine.scan now query =
      (engine.documents.getAll now).map fun documents =>
        (documents.filter fun (_, doc) => query.matches doc).map fun (id, doc) => ⟨id, doc⟩ := by
  rw [scan, if_neg (by simpa [Query.isEmpty] using nonempty)]

/-- A scan fails exactly when some live document does not decode. -/
theorem scan_error_iff (nonempty : query.clauses ≠ []) :
    (∃ e, engine.scan now query = .error e) ↔ ∃ id, engine.documents.Unreadable now id := by
  simp only [scan_eq engine now nonempty, Collecting.map_eq_error_iff]
  exact DocumentStore.getAll_error_iff

theorem internal_of_scan_eq_error (nonempty : query.clauses ≠ []) {e : Error}
    (h : engine.scan now query = .error e) : e.report.kind = .internal := by
  rw [scan_eq engine now nonempty, Collecting.map_eq_error_iff] at h
  obtain ⟨id, reason, rfl⟩ := DocumentStore.corrupt_of_getAll_eq_error h
  rfl

/-- The hits of a scan are the live documents that satisfy every clause. -/
theorem mem_of_scan_eq_ok (nonempty : query.clauses ≠ []) {hits : List Hit}
    (h : engine.scan now query = .ok hits) {hit : Hit} :
    hit ∈ hits ↔ engine.documents.get now hit.id = .ok hit.document ∧
      ∀ clause ∈ query.clauses, clause.holds hit.document = true := by
  rw [scan_eq engine now nonempty, Collecting.map_eq_ok_iff] at h
  obtain ⟨all, listed, rfl⟩ := h
  rw [← DocumentStore.mem_of_getAll_eq_ok listed, ← matches_iff]
  simp only [List.mem_map, List.mem_filter, Prod.exists]
  constructor
  · rintro ⟨id, doc, ⟨held, good⟩, rfl⟩
    exact ⟨held, good⟩
  · rintro ⟨held, good⟩
    exact ⟨hit.id, hit.document, ⟨held, good⟩, rfl⟩

theorem nodup_of_scan_eq_ok (nonempty : query.clauses ≠ []) {hits : List Hit}
    (h : engine.scan now query = .ok hits) : (hits.map (·.id)).Nodup := by
  rw [scan_eq engine now nonempty, Collecting.map_eq_ok_iff] at h
  obtain ⟨all, listed, rfl⟩ := h
  rw [List.map_map]
  exact (DocumentStore.nodup_of_getAll_eq_ok listed).sublist (List.filter_sublist.map _)

/-! ## What a query returns -/

/-- A query fails exactly if the index proposes a document that cannot be decoded. -/
theorem execute_error_iff (nonempty : query.clauses ≠ []) :
    (∃ e, engine.execute now query = .error e) ↔
      ∃ id, engine.Proposes now query.clauses id ∧ engine.documents.Unreadable now id := by
  rw [execute_eq_answer engine now nonempty]
  exact (Course.straight engine now query.clauses).answer_error_iff nonempty

theorem internal_of_execute_eq_error (nonempty : query.clauses ≠ []) {e : Error}
    (h : engine.execute now query = .error e) : e.report.kind = .internal := by
  rw [execute_eq_answer engine now nonempty] at h
  exact internal_of_hitsAmong_eq_error h

/-- The hits of a query are the proposed documents that fulfil all clauses. -/
theorem mem_of_execute_eq_ok (nonempty : query.clauses ≠ []) {hits : List Hit}
    (h : engine.execute now query = .ok hits) {hit : Hit} :
    hit ∈ hits ↔
      engine.Proposes now query.clauses hit.id ∧
        engine.documents.get now hit.id = .ok hit.document ∧
        ∀ clause ∈ query.clauses, clause.holds hit.document = true := by
  rw [execute_eq_answer engine now nonempty] at h
  exact Course.mem_of_answer_eq_ok _ nonempty h

theorem nodup_of_execute_eq_ok (nonempty : query.clauses ≠ []) {hits : List Hit}
    (h : engine.execute now query = .ok hits) : (hits.map (·.id)).Nodup := by
  rw [execute_eq_answer engine now nonempty] at h
  exact Course.nodup_of_answer_eq_ok _ h

/-- Where a scan succeeds the query succeeds, and returns the hits that the index proposes. -/
theorem execute_of_scan_eq_ok (nonempty : query.clauses ≠ []) {all : List Hit}
    (scanned : engine.scan now query = .ok all) :
    ∃ hits, engine.execute now query = .ok hits ∧
      ∀ hit, hit ∈ hits ↔ hit ∈ all ∧ engine.Proposes now query.clauses hit.id := by
  cases executed : engine.execute now query with
  | error e =>
    obtain ⟨id, -, unreadable⟩ := (execute_error_iff nonempty).1 ⟨e, executed⟩
    obtain ⟨e', failed⟩ := (scan_error_iff nonempty).2 ⟨id, unreadable⟩
    rw [failed] at scanned
    cases scanned
  | ok hits =>
    refine ⟨hits, rfl, fun hit => ?_⟩
    rw [mem_of_execute_eq_ok nonempty executed, mem_of_scan_eq_ok nonempty scanned, and_comm]

/-- A query fails exactly when the index proposes a live document that does not decode, with an
internal error.  Otherwise it returns, each once, the documents that the index proposes, that are
live and that satisfy every clause.  No order of counting and verifying makes a difference.  Where a
scan succeeds the query succeeds, and returns those hits of the scan that the index proposes. -/
theorem execute_exact (engine : Engine) (now : Instant) (query : Query)
    (nonempty : query.clauses ≠ []) :
    ((∃ e, engine.execute now query = .error e) ↔
      ∃ id, engine.Proposes now query.clauses id ∧ engine.documents.Unreadable now id) ∧
    (∀ e, engine.execute now query = .error e → e.report.kind = .internal) ∧
    (∀ hits, engine.execute now query = .ok hits →
      (hits.map (·.id)).Nodup ∧
      ∀ id doc, ⟨id, doc⟩ ∈ hits ↔
        engine.Proposes now query.clauses id ∧ engine.documents.get now id = .ok doc ∧
          ∀ clause ∈ query.clauses, clause.holds doc = true) ∧
    (∀ course : Course engine now query.clauses,
      SameAnswer (engine.execute now query) course.answer) ∧
    (∀ all, engine.scan now query = .ok all →
      ∃ hits, engine.execute now query = .ok hits ∧
        ∀ hit, hit ∈ hits ↔ hit ∈ all ∧ engine.Proposes now query.clauses hit.id) := by
  refine ⟨execute_error_iff nonempty, ?_, ?_, ?_, ?_⟩
  · intro e
    exact internal_of_execute_eq_error nonempty
  · intro hits h
    exact ⟨nodup_of_execute_eq_ok nonempty h, fun id doc => mem_of_execute_eq_ok nonempty h⟩
  · intro course
    rw [execute_eq_answer engine now nonempty]
    exact Course.sameAnswer _ course nonempty
  · intro all
    exact execute_of_scan_eq_ok nonempty

/-- An index that is adrift: under one key it has a document that is not stored and one that does
not decode. -/
def drifted : Engine where
  documents := ⟨⟨none, [(⟨"bad"⟩, ⟨[], none⟩)], by decide⟩⟩
  index := ⟨⟨none, [("a", ⟨⟨[⟨"gone"⟩, ⟨"bad"⟩], by decide⟩, none⟩)], by decide⟩⟩

/-- Two clauses of one key propose both documents, and the second fails the query. -/
theorem execute_drifted :
    ∃ e, drifted.execute 0 ⟨[⟨["a"], .lt, "1"⟩, ⟨["a"], .gt, "0"⟩]⟩ = .error e
      ∧ e.report.kind = .internal := by
  obtain ⟨fails, internal, _⟩ := execute_exact drifted 0
    ⟨[⟨["a"], .lt, "1"⟩, ⟨["a"], .gt, "0"⟩]⟩ (by decide)
  have unreadable : drifted.documents.Unreadable 0 ⟨"bad"⟩ := ⟨[], .endOfText .value, rfl, rfl⟩
  have proposed : drifted.Proposes 0 [⟨["a"], .lt, "1"⟩, ⟨["a"], .gt, "0"⟩] ⟨"bad"⟩ := by
    intro clause hc
    rcases List.mem_pair.1 hc with rfl | rfl
    · exact List.mem_cons_of_mem _ List.mem_cons_self
    · exact List.mem_cons_of_mem _ List.mem_cons_self
  obtain ⟨e, failed⟩ := fails.2 ⟨⟨"bad"⟩, proposed, unreadable⟩
  exact ⟨e, failed, internal e failed⟩

end Engine
end DocumentBase
