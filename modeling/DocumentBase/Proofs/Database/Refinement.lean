import DocumentBase.Proofs.Database.History
import DocumentBase.Proofs.Document.Codec
import DocumentBase.Proofs.Execution
import DocumentBase.Proofs.Index.Coverage
import DocumentBase.Proofs.Lasting
import DocumentBase.Proofs.Query.Spelling

/-!
# DocumentBase.Proofs.Database.Refinement

A database in which nothing expires is a plain list of documents.  Whatever calls have been made of
it, it answers as the list of the documents that were added does (`answers_of_run`): a scan filters
the list, a search finds what the scan finds, the size is the length.

1. After every call the database *represents* its ledger: the stored texts are those of the entries,
   and the index has every entry under all its keys and nothing else (`Represents.perform`).
2. What a represented entry gives when it is read is known from the codec: the document itself, or a
   failure if the document nests too deeply (`Represents.get_eq`).
3. A search finds no less than a scan because the index proposes every document of which all clauses
   hold (`Represents.proposes`), and no more because candidates are verified.
-/

namespace DocumentBase

namespace Database

variable {db : Database} {added : List Entry} {now : Instant}

/-- The database holds the entries, and nothing in it ever expires. -/
structure Represents (db : Database) (added : List Entry) : Prop where
  /-- No identifier has come twice. -/
  distinct : (added.map Prod.fst).Nodup
  finite : ∀ entry ∈ added, entry.2.isFinite
  documents_lasting : db.engine.documents.documents.Lasting
  stored : ∀ now, db.engine.documents.documents.snapshot now =
    added.reverse.map fun entry => (entry.1, entry.2.encode)
  postings_lasting : db.engine.index.postings.Lasting
  recorded : ∀ now id key, id ∈ db.engine.index.lookup now key ↔
    ∃ doc, (id, doc) ∈ added ∧ key ∈ doc.indexKeys.toList

namespace Represents

/-! ## Every history -/

theorem empty {config : Config} (documents : config.documentTtl = none)
    (index : config.indexTtl = none) : (Database.empty config).Represents [] where
  distinct := List.nodup_nil
  finite := by simp
  documents_lasting := by
    simpa only [Database.empty, DocumentStore.empty, documents] using TimedMap.Lasting.empty
  stored := fun _ => rfl
  postings_lasting := by
    simpa only [Database.empty, Index.empty, index] using TimedMap.Lasting.empty
  recorded := by
    intro now id key
    simp only [List.not_mem_nil, false_and, exists_false, iff_false]
    exact List.not_mem_nil

/-- A document that is kept is represented with those before it. -/
theorem keeping (h : db.Represents added) {id : DocId} {doc : Document} (finite : doc.isFinite)
    (distinct : ((added ++ [(id, doc)]).map Prod.fst).Nodup) (written : Instant)
    (clock : String → Instant) :
    (db.keeping written id doc clock).Represents (added ++ [(id, doc)]) where
  distinct := distinct
  finite := by
    simp only [List.mem_append, List.mem_singleton]
    rintro entry (held | rfl)
    · exact h.finite entry held
    · exact finite
  documents_lasting := h.documents_lasting.set written id doc.encode
  stored := by
    intro now
    have absent : id ∉ (db.engine.documents.documents.snapshot now).map Prod.fst := by
      rw [h.stored now, List.map_map, List.map_reverse, List.mem_reverse]
      rw [List.map_append, List.nodup_append] at distinct
      intro held
      exact distinct.2.2 id held id List.mem_cons_self rfl
    rw [Database.keeping, h.documents_lasting.snapshot_set written now _ absent, h.stored now]
    simp
  postings_lasting := Index.lasting_record h.postings_lasting clock id _
  recorded := by
    intro now other key
    rw [Database.keeping, Index.mem_lookup_record h.postings_lasting clock now, h.recorded now]
    simp only [List.mem_append, List.mem_singleton, Prod.mk.injEq]
    grind

/-- A purge changes nothing while nothing expires. -/
theorem purge (h : db.Represents added) (now later : Instant) :
    (db.purge now later).2 = db := by
  have documents := h.documents_lasting.purge_snd now
  have postings := h.postings_lasting.purge_snd later
  simp only [Database.purge, DocumentStore.purge, Index.purge, documents, postings]

/-- Without a time to live no deadline is out of range. -/
theorem fitsAll (h : db.Represents added) (clock : String → Instant) (keys : List String) :
    db.engine.index.FitsAll clock keys := by
  intro key _
  rw [h.postings_lasting.ttl]
  exact Instant.fits_none

/-- A call leaves a database behind that represents the ledger with what the call entered. -/
theorem perform (h : db.Represents added) (call : Call)
    (distinct : ((added ++ db.entered call).map Prod.fst).Nodup) :
    (db.perform call).Represents (added ++ db.entered call) := by
  rcases db.perform_cases call with ⟨same, none⟩ | ⟨written, id, doc, clock, finite, -, kept, one⟩
    | ⟨now, later, purged, none⟩
  · rw [same, none, List.append_nil]
    exact h
  · rw [if_pos (h.fitsAll clock _)] at one
    rw [one] at distinct ⊢
    rw [kept]
    exact h.keeping finite distinct written clock
  · rw [purged, h.purge, none, List.append_nil]
    exact h

/-- A database represents what its history has added, call by call. -/
theorem run (h : db.Represents added) (history : List Call)
    (distinct : ((added ++ db.ledger history).map Prod.fst).Nodup) :
    (db.run history).Represents (added ++ db.ledger history) := by
  induction history generalizing db added with
  | nil =>
    rw [ledger, List.append_nil]
    exact h
  | cons call rest ih =>
    rw [ledger, ← List.append_assoc] at distinct ⊢
    have first : ((added ++ db.entered call).map Prod.fst).Nodup := by
      rw [List.map_append] at distinct
      exact (List.nodup_append.1 distinct).1
    rw [run_cons]
    exact ih (h.perform call first) distinct

/-! ## Reading -/

variable {id : DocId} {doc : Document}

/-- What is stored is the text of a document that was added. -/
theorem find?_eq_some_iff (h : db.Represents added) {stored : List UInt8} :
    db.engine.documents.documents.find? now id = some stored ↔
      ∃ doc, (id, doc) ∈ added ∧ doc.encode = stored := by
  rw [← TimedMap.mem_snapshot, h.stored now]
  simp

/-- An entry is read back as it was added, unless it nests too deeply. -/
theorem get_eq (h : db.Represents added) (held : (id, doc) ∈ added) :
    db.get now id =
      if doc.nesting ≤ Json.depthLimit then .ok doc else .error (.corrupt id .tooDeep) := by
  have found : db.engine.documents.documents.find? now id = some doc.encode :=
    h.find?_eq_some_iff.2 ⟨doc, held, rfl⟩
  rw [get, DocumentStore.get, found]
  simp only [DocumentStore.decodeStored, Document.decode_encode (h.finite _ held)]
  split <;> rfl

theorem get_unknown (h : db.Represents added) (absent : id ∉ added.map Prod.fst) :
    db.get now id = .error (.unknownDocument id) := by
  rw [get, DocumentStore.get]
  cases found : db.engine.documents.documents.find? now id with
  | none => rfl
  | some stored =>
    obtain ⟨doc, held, -⟩ := h.find?_eq_some_iff.1 found
    exact absurd (List.mem_map_of_mem held) absent

/-- A document is returned as it was added, if it is not too deep to be decoded. -/
theorem get_eq_ok_iff (h : db.Represents added) :
    db.get now id = .ok doc ↔ (id, doc) ∈ added ∧ doc.nesting ≤ Json.depthLimit := by
  constructor
  · intro got
    obtain ⟨stored, found, -⟩ := DocumentStore.get_eq_ok_iff.1 got
    obtain ⟨other, held, -⟩ := h.find?_eq_some_iff.1 found
    rw [h.get_eq held] at got
    split at got
    · next shallow =>
      cases got
      exact ⟨held, shallow⟩
    · cases got
  · rintro ⟨held, shallow⟩
    rw [h.get_eq held, if_pos shallow]

theorem size_eq (h : db.Represents added) : db.size now = added.length := by
  rw [size, DocumentStore.size, ← TimedMap.length_snapshot, h.stored now]
  simp

/-! ## Queries -/

/-- What cannot be read is what nests too deeply. -/
theorem unreadable_iff (h : db.Represents added) :
    db.engine.documents.Unreadable now id ↔
      ∃ doc, (id, doc) ∈ added ∧ Json.depthLimit < doc.nesting := by
  constructor
  · rintro ⟨stored, reason, found, malformed⟩
    obtain ⟨doc, held, rfl⟩ := h.find?_eq_some_iff.1 found
    rw [Document.decode_encode (h.finite _ held)] at malformed
    split at malformed
    · cases malformed
    · next deep => exact ⟨doc, held, Nat.lt_of_not_le deep⟩
  · rintro ⟨doc, held, deep⟩
    refine ⟨doc.encode, .tooDeep, h.find?_eq_some_iff.2 ⟨doc, held, rfl⟩, ?_⟩
    rw [Document.decode_encode (h.finite _ held), if_neg (Nat.not_le_of_lt deep)]

/-- The index proposes every entry of which all clauses hold. -/
theorem proposes (h : db.Represents added) {clauses : List Clause} (held : (id, doc) ∈ added)
    (holds : ∀ clause ∈ clauses, clause.holds doc = true) :
    db.engine.Proposes now clauses id := by
  intro clause hc
  exact (h.recorded now id clause.indexKey).2
    ⟨doc, held, Clause.indexKey_mem_of_holds (holds clause hc)⟩

end Represents

/-- A moment at which the database answers as a list of entries does. -/
structure AnswersAs (db : Database) (now : Instant) (added : List Entry) : Prop where
  /-- A scan fails exactly where an entry nests too deeply to be read, with an internal error. -/
  scan_error : ∀ {text query}, Query.parse text = .ok query → query.clauses ≠ [] →
    ((∃ e, db.scan now text = .error e ∧ e.report.kind = .internal) ↔
      ∃ entry ∈ added, Json.depthLimit < entry.2.nesting)
  /-- Otherwise it returns the entries of which every clause holds, each identifier once. -/
  scan_ok : ∀ {text query}, Query.parse text = .ok query → query.clauses ≠ [] →
    (∀ entry ∈ added, entry.2.nesting ≤ Json.depthLimit) →
    ∃ hits, db.scan now text = .ok hits ∧ (hits.map (·.id)).Nodup ∧
      ∀ id doc, ⟨id, doc⟩ ∈ hits ↔
        (id, doc) ∈ added ∧ ∀ clause ∈ query.clauses, clause.holds doc = true
  /-- Where a scan succeeds a search succeeds, and finds the same. -/
  search_ok : ∀ {text all}, db.scan now text = .ok all →
    ∃ hits, db.search now text = .ok hits ∧ (hits.map (·.id)).Nodup ∧ ∀ hit, hit ∈ hits ↔ hit ∈ all
  /-- A text that is no query gets the same error from both. -/
  malformed : ∀ {text reason}, Query.parse text = .error reason →
    ∃ e, db.scan now text = .error e ∧ db.search now text = .error e ∧
      e.report.kind = .invalidQuery
  /-- The empty text finds nothing. -/
  blank : db.scan now "" = .ok [] ∧ db.search now "" = .ok []
  size : db.size now = added.length
  /-- An entry is read back as it was added, unless it nests too deeply. -/
  get : ∀ {id doc}, (id, doc) ∈ added → db.get now id =
    if doc.nesting ≤ Json.depthLimit then .ok doc else .error (.corrupt id .tooDeep)
  get_unknown : ∀ {id}, id ∉ added.map Prod.fst → db.get now id = .error (.unknownDocument id)

theorem scan_of_parse_ok {text : String} {query : Query} (parsed : Query.parse text = .ok query) :
    db.scan now text = db.engine.scan now query := by
  rw [scan, parsed]

theorem search_of_parse_ok {text : String} {query : Query} (parsed : Query.parse text = .ok query) :
    db.search now text = db.engine.execute now query := by
  rw [search, parsed]

namespace Represents

variable {text : String} {query : Query}

/-- A scan fails exactly if a document that was added is too deep to be decoded. -/
theorem scan_error_iff (h : db.Represents added) (nonempty : query.clauses ≠ []) :
    (∃ e, db.engine.scan now query = .error e) ↔
      ∃ entry ∈ added, Json.depthLimit < entry.2.nesting := by
  rw [Engine.scan_error_iff nonempty]
  constructor
  · rintro ⟨id, unreadable⟩
    obtain ⟨doc, held, deep⟩ := h.unreadable_iff.1 unreadable
    exact ⟨(id, doc), held, deep⟩
  · rintro ⟨⟨id, doc⟩, held, deep⟩
    exact ⟨id, h.unreadable_iff.2 ⟨doc, held, deep⟩⟩

/-- The hits of a scan are the entries of which every clause holds. -/
theorem mem_of_scan_eq_ok (h : db.Represents added) (nonempty : query.clauses ≠ [])
    {hits : List Hit} (scanned : db.engine.scan now query = .ok hits) {hit : Hit} :
    hit ∈ hits ↔ (hit.id, hit.document) ∈ added ∧
      ∀ clause ∈ query.clauses, clause.holds hit.document = true := by
  rw [Engine.mem_of_scan_eq_ok nonempty scanned]
  have got : db.engine.documents.get now hit.id = .ok hit.document ↔
      (hit.id, hit.document) ∈ added ∧ hit.document.nesting ≤ Json.depthLimit := h.get_eq_ok_iff
  rw [got]
  constructor
  · rintro ⟨⟨held, -⟩, holds⟩
    exact ⟨held, holds⟩
  · rintro ⟨held, holds⟩
    -- The scan succeeded, so this entry was read.
    have shallow : hit.document.nesting ≤ Json.depthLimit := by
      by_contra deep
      obtain ⟨e, failed⟩ := (h.scan_error_iff nonempty).2
        ⟨_, held, Nat.lt_of_not_le deep⟩
      rw [failed] at scanned
      cases scanned
    exact ⟨⟨held, shallow⟩, holds⟩

/-- Where a scan succeeds the query with the index succeeds, and finds the same. -/
theorem execute_of_scan_eq_ok (h : db.Represents added) {all : List Hit}
    (scanned : db.engine.scan now query = .ok all) :
    ∃ hits, db.engine.execute now query = .ok hits ∧ (hits.map (·.id)).Nodup ∧
      ∀ hit, hit ∈ hits ↔ hit ∈ all := by
  by_cases nonempty : query.clauses = []
  · have blank : query.isEmpty := by simp [Query.isEmpty, nonempty]
    rw [Engine.scan, if_pos blank] at scanned
    cases scanned
    rw [Engine.execute, if_pos blank]
    exact ⟨[], rfl, List.nodup_nil, fun _ => .rfl⟩
  · obtain ⟨hits, executed, same⟩ :=
      Engine.execute_of_scan_eq_ok nonempty scanned
    refine ⟨hits, executed, Engine.nodup_of_execute_eq_ok nonempty executed, fun hit => ?_⟩
    rw [same]
    constructor
    · exact And.left
    · intro held
      obtain ⟨entry, holds⟩ := (h.mem_of_scan_eq_ok nonempty scanned).1 held
      exact ⟨held, h.proposes entry holds⟩

/-- A database answers as the entries do that it represents. -/
theorem answersAs (h : db.Represents added) (now : Instant) : db.AnswersAs now added where
  scan_error := by
    intro text query parsed nonempty
    rw [scan_of_parse_ok parsed, ← h.scan_error_iff nonempty]
    constructor
    · rintro ⟨e, failed, -⟩
      exact ⟨e, failed⟩
    · rintro ⟨e, failed⟩
      exact ⟨e, failed, Engine.internal_of_scan_eq_error nonempty failed⟩
  scan_ok := by
    intro text query parsed nonempty shallow
    rw [scan_of_parse_ok parsed]
    cases scanned : db.engine.scan now query with
    | error e =>
      obtain ⟨entry, held, deep⟩ := (h.scan_error_iff nonempty).1 ⟨e, scanned⟩
      exact absurd (shallow entry held) (Nat.not_le_of_lt deep)
    | ok hits =>
      exact ⟨hits, rfl, Engine.nodup_of_scan_eq_ok nonempty scanned,
        fun id doc => h.mem_of_scan_eq_ok nonempty scanned⟩
  search_ok := by
    intro text all scanned
    cases parsed : Query.parse text with
    | error reason =>
      rw [scan, parsed] at scanned
      cases scanned
    | ok query =>
      rw [scan_of_parse_ok parsed] at scanned
      rw [search_of_parse_ok parsed]
      exact h.execute_of_scan_eq_ok scanned
  malformed := by
    intro text reason parsed
    refine ⟨.query reason, ?_, ?_, rfl⟩
    · rw [scan, parsed]
    · rw [search, parsed]
  blank := ⟨rfl, rfl⟩
  size := h.size_eq
  get := h.get_eq
  get_unknown := h.get_unknown

end Represents

/-! ## Histories -/

/-- Whatever calls are made of a database in which nothing expires, as long as no identifier is
generated twice it answers as the list of the documents does that were added. -/
theorem answers_of_run (config : Config) (documents : config.documentTtl = none)
    (index : config.indexTtl = none) (history : List Call)
    (distinct : (((empty config).ledger history).map Prod.fst).Nodup) (now : Instant) :
    ((empty config).run history).AnswersAs now ((empty config).ledger history) := by
  have represents := (Represents.empty documents index).run history (by simpa using distinct)
  rw [List.nil_append] at represents
  exact represents.answersAs now

/-- A name with a point in it. -/
def pointedName : Document := .ofFields [("a.b", .string "1")]

/-- Two names, one in the other. -/
def nestedNames : Document := (Document.ofFields [("b", .string "1")]).under "a"

/-- Both documents are added, with a purge and a scan in between. -/
def twoAdded : List Call :=
  [.add 0 ⟨"first"⟩ pointedName (fun _ => 0), .purge 1 1, .scan 1 "",
    .add 2 ⟨"second"⟩ nestedNames (fun _ => 3)]

/-- The two documents have the same keys, among them that of the clause; the search returns the one
of which the clause holds. -/
theorem search_twoAdded :
    pointedName.indexKeys.toList = nestedNames.indexKeys.toList ∧
    ∃ hits, ((empty .noExpiry).run twoAdded).search 4 "a.b:1" = .ok hits ∧
      ∀ id doc, ⟨id, doc⟩ ∈ hits ↔ id = ⟨"second"⟩ ∧ doc = nestedNames := by
  have answers := answers_of_run .noExpiry rfl rfl twoAdded (by decide) 4
  have ledger : (empty .noExpiry).ledger twoAdded =
      [(⟨"first"⟩, pointedName), (⟨"second"⟩, nestedNames)] := rfl
  rw [ledger] at answers
  have bare : Clause.IsBare ⟨["a", "b"], .eq, "1"⟩ := by
    simp [Clause.IsBare, IsBareName, IsBareValue]
  have parsed : Query.parse "a.b:1" = .ok ⟨[⟨["a", "b"], .eq, "1"⟩]⟩ :=
    Query.parse_of_spelling (.mk 0 0 (.last (Clause.spelling_display bare)))
  obtain ⟨all, scanned, -, filtered⟩ := answers.scan_ok parsed (by decide) (by decide)
  obtain ⟨hits, found, -, same⟩ := answers.search_ok scanned
  have rejected : Clause.holds ⟨["a", "b"], .eq, "1"⟩ pointedName = false := by decide
  have accepted : Clause.holds ⟨["a", "b"], .eq, "1"⟩ nestedNames = true := by decide
  refine ⟨by decide, hits, found, fun id doc => ?_⟩
  rw [same, filtered]
  simp only [List.mem_cons, List.not_mem_nil, or_false, Prod.mk.injEq, forall_eq]
  constructor
  · rintro ⟨⟨rfl, rfl⟩ | second, holds⟩
    · rw [rejected] at holds
      cases holds
    · exact second
  · rintro ⟨rfl, rfl⟩
    exact ⟨.inr ⟨rfl, rfl⟩, accepted⟩

end Database
end DocumentBase
