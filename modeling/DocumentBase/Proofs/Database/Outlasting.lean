import DocumentBase.Proofs.Database.Actions
import DocumentBase.Proofs.Database.Refinement
import DocumentBase.Proofs.Visibility

/-!
# DocumentBase.Proofs.Database.Outlasting

A database whose index expires no sooner than its documents.  Documents and index entries die by
clocks of their own, an entry of the index is shared by all documents with its key and dies as a
whole, and dead entries are removed whenever that happens to be done.  Nevertheless no document that
lives is missing from the index, so a search finds what a scan finds (`finds_every_live_document`).

1. Of the two stores it is enough to know what has been written, and when: what has been removed was
   dead (`TimedMap.Reflects`).
2. An entry of the index is as young as the last document that was recorded in it.  So as long as
   any of its documents lives the entry does too, the next record adds to it and does not start it
   anew, and its documents stay in it (`Covers.act`).
3. An action that is broken off writes nothing, and takes nothing away.  So whatever becomes of the
   others, a document whose adding has returned is in the index under all its keys.
-/

namespace DocumentBase

/-- Whether index entries live at least as long as documents do.  What has no time to live lives
forever. -/
def Config.IndexOutlasts (config : Config) : Prop :=
  match config.documentTtl, config.indexTtl with
  | _, none => True
  | none, some _ => False
  | some document, some index => document.toNanos ≤ index.toNanos

instance : DecidablePred Config.IndexOutlasts
  | ⟨_, none, _⟩ => isTrue (by simp [Config.IndexOutlasts])
  | ⟨none, some _, _⟩ => isFalse id
  | ⟨some document, some index, _⟩ =>
    inferInstanceAs (Decidable (document.toNanos ≤ index.toNanos))

/-- Whether every clause of the query holds of the document.  A query without clauses selects
nothing. -/
def Query.Selects (query : Query) (doc : Document) : Prop :=
  query.clauses ≠ [] ∧ ∀ clause ∈ query.clauses, clause.holds doc = true

namespace Database

open TimedMap TimedMap.Written

variable {db : Database}

/-- Only documents whose numbers are finite are entered. -/
theorem finite_of_mem_ledger {history : List Call} {entry : Entry}
    (held : entry ∈ db.ledger history) : entry.2.isFinite := by
  induction history generalizing db with
  | nil => cases held
  | cons call rest ih =>
    rw [ledger, List.mem_append] at held
    rcases held with held | held
    · rcases db.perform_cases call with ⟨-, none⟩ | ⟨_, _, doc, _, finite, -, -, one⟩
        | ⟨_, _, -, none⟩
      · simp [none] at held
      · rw [one] at held
        split at held
        · rw [List.mem_singleton.1 held]
          exact finite
        · cases held
      · simp [none] at held
    · exact ih held

/-! ## What has been written -/

/-- What has been written to the two stores of a database, and when. -/
structure Kept where
  documents : Written DocId (List UInt8)
  postings : Written String IdSet

/-- What has been written after an action. -/
def Kept.next (config : Config) (kept : Kept) : Action → Kept
  | .store now id doc => { kept with
      documents := kept.documents.write config.documentTtl id doc.encode now }
  | .record now stamp id key => { kept with
      postings := kept.postings.next config.indexTtl (.upsert now stamp key .empty (·.insert id)) }
  | .purgeDocuments _ | .purgeIndex _ => kept

/-- An action that is broken off has written nothing. -/
theorem Kept.next_of_not_fits {config : Config} {action : Action} (fits : ¬action.Fits config)
    (kept : Kept) : kept.next config action = kept := by
  cases action with
  | store now id doc => rw [Kept.next, write_of_not_fits fits]
  | record now stamp id key => rw [Kept.next, TimedMap.Written.next, write_of_not_fits fits]
  | purgeDocuments | purgeIndex => exact absurd trivial fits

/-- A database as of some moment, seen as what has been written to its stores. -/
structure Reflects (db : Database) (config : Config) (kept : Kept) (latest : Instant) : Prop where
  documents : db.engine.documents.documents.Reflects config.documentTtl kept.documents latest
  postings : db.engine.index.postings.Reflects config.indexTtl kept.postings latest

variable {config : Config} {kept : Kept} {latest now : Instant} {action : Action}

/-- An action keeps both maps and what has been written in them together. -/
theorem Reflects.act (h : db.Reflects config kept latest)
    (forward : (latest :: action.readings).Pairwise (· ≤ ·)) :
    (db.act action).Reflects config (kept.next config action) action.ends := by
  have order := Action.le_ends forward
  cases action with
  | store now id doc =>
    exact ⟨(h.documents.set now id doc.encode).2.mono order, h.postings.mono order⟩
  | record now stamp id key =>
    refine ⟨h.documents.mono order, ?_⟩
    have forward' : ForwardFrom latest
        [(.upsert now stamp key .empty (·.insert id) : Access String IdSet)] := forward
    exact (h.postings.access forward').2
  | purgeDocuments now => exact ⟨h.documents.purge order, h.postings.mono order⟩
  | purgeIndex now => exact ⟨h.documents.mono order, h.postings.purge order⟩

/-! ## The index and the documents -/

/- The invariant of a run: each key of a document that lives has an entry with the document in it,
and the entry is no older than the document.  Documents share the entries, and a record makes an
entry younger for all of them, so an entry can only live longer than a document needs. -/

/-- Whatever lives as a document lives as an entry of the index that is no older. -/
theorem lives_of_outlasts (outlasts : config.IndexOutlasts) {written recorded : Instant}
    (order : written ≤ recorded) (alive : lives config.documentTtl written now = true) :
    lives config.indexTtl recorded now = true := by
  unfold Config.IndexOutlasts at outlasts
  unfold lives at *
  cases index : config.indexTtl with
  | none => rfl
  | some span =>
    cases documents : config.documentTtl with
    | none => simp [index, documents] at outlasts
    | some span' =>
      simp only [index, documents, decide_eq_true_eq] at outlasts alive ⊢
      exact Nat.lt_of_lt_of_le alive (Nat.add_le_add order outlasts)

/-- Every key that has been recorded for a document which lives is there for it, in an entry that is
no older than the document. -/
structure Covers (config : Config) (kept : Kept) (writes : List Write) (latest : Instant) :
    Prop where
  /-- What is kept as a document has been written as one. -/
  stored : ∀ {id stored written}, kept.documents id = some (stored, written) →
    written ≤ latest ∧ ∃ doc, .document id doc ∈ writes ∧ stored = doc.encode
  recorded : ∀ {id key stored written}, .key id key ∈ writes →
    kept.documents id = some (stored, written) → lives config.documentTtl written latest = true →
    ∃ ids recorded, kept.postings key = some (ids, recorded) ∧ written ≤ recorded ∧ id ∈ ids

/-- Whether one write may come before another: nothing is written under an identifier before its
document. -/
def Write.Before (earlier : Write) : Write → Prop
  | document id _ => earlier.id ≠ id
  | key _ _ => True

namespace Covers

variable {writes : List Write}

/-- Nothing has been written, so there is nothing to find. -/
theorem empty (config : Config) (latest : Instant) :
    Covers config ⟨nothing, nothing⟩ [] latest where
  stored := by simp [nothing]
  recorded := by simp

/-- What covers the documents of a moment covers those of a later one, for none has come to life. -/
theorem mono (h : Covers config kept writes latest) (order : latest ≤ now) :
    Covers config kept writes now where
  stored := fun last =>
    have ⟨past, written⟩ := h.stored last
    ⟨Nat.le_trans past order, written⟩
  recorded := fun before last alive => h.recorded before last (lives_earlier order alive)

/-- A new document has no keys yet, and the others keep theirs. -/
theorem store (h : Covers config kept writes latest) (order : latest ≤ now)
    (fits : now.Fits config.documentTtl) {id : DocId} {doc : Document}
    (fresh : ∀ write ∈ writes, write.id ≠ id) :
    Covers config (kept.next config (.store now id doc)) (writes ++ [.document id doc]) now where
  stored := by
    intro other stored written last
    simp only [Kept.next, write_of_fits fits] at last
    split at last
    · next same =>
      cases last
      exact ⟨Nat.le_refl now, doc, by simp [same], rfl⟩
    · obtain ⟨past, doc', before, encoded⟩ := h.stored last
      exact ⟨Nat.le_trans past order, doc', List.mem_append_left _ before, encoded⟩
  recorded := by
    intro other key stored written before last alive
    have before : .key other key ∈ writes := by simpa using before
    have different : other ≠ id := fresh _ before
    simp only [Kept.next, write_of_fits fits, if_neg different] at last
    exact h.recorded before last (lives_earlier order alive)

/-- A record adds to an entry in which there is a document that lives, and makes it younger. -/
theorem record (h : Covers config kept writes latest) (outlasts : config.IndexOutlasts)
    {stamp : Instant} (order : latest ≤ now) (order' : now ≤ stamp)
    (fits : stamp.Fits config.indexTtl) (id : DocId) (key : String) :
    Covers config (kept.next config (.record now stamp id key)) (writes ++ [.key id key])
      stamp where
  stored := by
    intro other stored written last
    obtain ⟨past, doc, before, encoded⟩ := h.stored last
    have past' : written ≤ stamp := Nat.le_trans past (Nat.le_trans order order')
    exact ⟨past', doc, List.mem_append_left _ before, encoded⟩
  recorded := by
    intro other wanted stored written before last alive
    have past : written ≤ stamp := Nat.le_trans (h.stored last).1 (Nat.le_trans order order')
    have alive_now := lives_earlier order' alive
    have alive_latest := lives_earlier order alive_now
    have known : .key other wanted ∈ writes ∨ other = id ∧ wanted = key := by simpa using before
    simp only [Kept.next, next, write_of_fits fits]
    by_cases same : wanted = key
    · rw [if_pos same]
      refine ⟨_, stamp, rfl, past, IdSet.mem_insert.2 ?_⟩
      rcases known with before | ⟨rfl, -⟩
      · obtain ⟨ids, recorded, entry, young, held⟩ := h.recorded before last alive_latest
        right
        rw [← same, visible_of_last entry, if_pos (lives_of_outlasts outlasts young alive_now)]
        exact held
      · exact .inl rfl
    · rw [if_neg same]
      have before := known.resolve_right fun new => same new.2
      exact h.recorded before last alive_latest

/-- An action that writes no document under an identifier in use keeps each living document under
each of its keys. -/
theorem act (h : Covers config kept writes latest) (outlasts : config.IndexOutlasts)
    (forward : (latest :: action.readings).Pairwise (· ≤ ·))
    (fresh : ∀ write ∈ writes, ∀ new ∈ action.wrote config, write.Before new) :
    Covers config (kept.next config action) (writes ++ action.wrote config) action.ends := by
  have order := Action.le_ends forward
  by_cases fits : action.Fits config
  case neg =>
    rw [Kept.next_of_not_fits fits, Action.wrote, if_neg fits, List.append_nil]
    exact h.mono order
  rw [Action.wrote_of_fits fits] at fresh ⊢
  cases action with
  | store now id doc =>
    exact h.store order fits fun write held => fresh write held _ List.mem_cons_self
  | record now stamp id key =>
    have first : latest ≤ now := (List.pairwise_cons.1 forward).1 now List.mem_cons_self
    have second : now ≤ stamp := by
      simpa [Action.readings] using (List.pairwise_cons.1 forward).2
    exact h.record outlasts first second fits id key
  | purgeDocuments now | purgeIndex now =>
    rw [Action.writes, List.append_nil]
    exact h.mono order

end Covers

/-! ## Runs -/

/-- Some actions go on covering the documents, up to a later moment. -/
theorem Covers.play {writes : List Write} (outlasts : config.IndexOutlasts)
    (reflects : db.Reflects config kept latest) (covers : Covers config kept writes latest)
    {actions : List Action}
    (forward : (latest :: (actions.flatMap Action.readings ++ [now])).Pairwise (· ≤ ·))
    (apart : (writes ++ actions.flatMap (Action.wrote config)).Pairwise Write.Before) :
    ∃ kept', (db.play actions).Reflects config kept' now ∧
      Covers config kept' (writes ++ actions.flatMap (Action.wrote config)) now := by
  induction actions generalizing db kept writes latest with
  | nil =>
    have order : latest ≤ now := by simpa using forward
    rw [List.flatMap_nil, List.append_nil]
    exact ⟨kept, ⟨reflects.documents.mono order, reflects.postings.mono order⟩, covers.mono order⟩
  | cons action rest ih =>
    rw [List.flatMap_cons, List.append_assoc] at forward
    rw [List.flatMap_cons, ← List.append_assoc] at apart ⊢
    obtain ⟨first, others⟩ := Action.forward_split forward
    have fresh := (List.pairwise_append.1 (List.pairwise_append.1 apart).1).2.2
    exact ih (reflects.act first) (covers.act outlasts first fresh) others apart

/-! ## What documents write -/

variable {added : List Entry} {id : DocId} {doc : Document} {key : String}

theorem id_of_mem_writesOf {entry : Entry} {write : Write} (held : write ∈ writesOf entry) :
    write.id = entry.1 := by
  rw [writesOf, List.mem_cons, List.mem_map] at held
  rcases held with rfl | ⟨key, -, rfl⟩ <;> rfl

theorem document_mem_writes : .document id doc ∈ added.flatMap writesOf ↔ (id, doc) ∈ added := by
  simp only [List.mem_flatMap, writesOf, List.mem_cons, List.mem_map, Write.document.injEq,
    reduceCtorEq, and_false, exists_false, or_false, Prod.exists]
  constructor
  · rintro ⟨_, _, held, rfl, rfl⟩
    exact held
  · intro held
    exact ⟨id, doc, held, rfl, rfl⟩

/-- Each key of a document that is added is written. -/
theorem key_mem_writes (held : (id, doc) ∈ added) (recorded : key ∈ doc.indexKeys.toList) :
    .key id key ∈ added.flatMap writesOf :=
  List.mem_flatMap.2 ⟨_, held, List.mem_cons_of_mem _ (List.mem_map_of_mem recorded)⟩

/-- Where no identifier comes twice nothing is written under one before its document. -/
theorem pairwise_before (distinct : (added.map Prod.fst).Nodup) :
    (added.flatMap writesOf).Pairwise Write.Before := by
  rw [List.pairwise_flatMap]
  constructor
  · intro entry _
    have keys : (entry.2.indexKeys.toList.map (Write.key entry.1)).Pairwise Write.Before :=
      List.pairwise_map.2 (List.pairwise_of_forall fun _ _ => trivial)
    refine List.pairwise_cons.2 ⟨?_, keys⟩
    simp [Write.Before]
  · refine (List.pairwise_map.1 distinct).imp fun different write held new held' => ?_
    cases new with
    | key => trivial
    | document id' doc' =>
      have same : id' = _ := id_of_mem_writesOf held'
      rw [Write.Before, id_of_mem_writesOf held, same]
      exact different

/-! ## Finding what lives -/

/- A document that lives is proposed by the index under each of its keys.  So a query proposes each
living document that fulfils it, and what else the query proposes is verified and left out. -/

/-- Whether a document under the identifier is stored and not expired. -/
def Live (db : Database) (now : Instant) (id : DocId) : Prop :=
  (db.engine.documents.documents.find? now id).isSome

instance (db : Database) (now : Instant) (id : DocId) : Decidable (db.Live now id) :=
  inferInstanceAs (Decidable (Option.isSome _ = true))

/-- A document that lives is in the index under the keys that have been recorded for it. -/
theorem mem_lookup_of_written {writes : List Write} (reflects : db.Reflects config kept now)
    (covers : Covers config kept writes now) (outlasts : config.IndexOutlasts)
    (recorded : .key id key ∈ writes) (live : db.Live now id) :
    id ∈ db.engine.index.lookup now key := by
  rw [Live, reflects.documents.find?_eq (Nat.le_refl now), visible] at live
  split at live
  · next last =>
    split at live
    · next alive =>
      obtain ⟨ids, moment, entry, young, held⟩ := covers.recorded recorded last alive
      have alive' := lives_of_outlasts outlasts young alive
      rw [Index.lookup, reflects.postings.find?_eq (Nat.le_refl now), visible_of_last entry,
        if_pos alive']
      exact held
    · cases live
  · cases live

/-- A moment at which the index hides no live document. -/
structure FindsLive (db : Database) (now : Instant) (added : List Entry) : Prop where
  /-- What lives has been added. -/
  known : ∀ {id}, db.Live now id → ∃ doc, (id, doc) ∈ added
  /-- A document that lives is in the index under all its keys. -/
  recorded : ∀ {id doc key}, (id, doc) ∈ added → db.Live now id → key ∈ doc.indexKeys.toList →
    id ∈ db.engine.index.lookup now key
  /-- If every document that lives can be read, a search and a scan succeed with the same hits, each
  identifier once: the live documents that the query selects. -/
  found : (∀ id, ¬db.engine.documents.Unreadable now id) →
    ∀ {text query}, Query.parse text = .ok query →
    ∃ hits all, db.search now text = .ok hits ∧ db.scan now text = .ok all ∧
      (hits.map (·.id)).Nodup ∧ (all.map (·.id)).Nodup ∧ (∀ hit, hit ∈ hits ↔ hit ∈ all) ∧
      ∀ id doc, ⟨id, doc⟩ ∈ hits ↔ ((id, doc) ∈ added ∧ db.Live now id) ∧ query.Selects doc
  /-- A text that is no query gets the same error from both. -/
  malformed : ∀ {text reason}, Query.parse text = .error reason →
    db.search now text = .error (.query reason) ∧ db.scan now text = .error (.query reason)

section Reading

variable (reflects : db.Reflects config kept now)
  (covers : Covers config kept (added.flatMap writesOf) now)

include reflects covers

/-- What is found in the store is the text of a document that was added. -/
theorem exists_of_find? {stored : List UInt8}
    (found : db.engine.documents.documents.find? now id = some stored) :
    ∃ doc, (id, doc) ∈ added ∧ stored = doc.encode := by
  rw [reflects.documents.find?_eq (Nat.le_refl now)] at found
  unfold visible at found
  split at found
  · next last =>
    split at found
    · cases found
      obtain ⟨-, doc, before, encoded⟩ := covers.stored last
      exact ⟨doc, document_mem_writes.1 before, encoded⟩
    · cases found
  · cases found

/-- A document that lives is in the index under all its keys. -/
theorem mem_lookup_of_live (outlasts : config.IndexOutlasts) (held : (id, doc) ∈ added)
    (live : db.Live now id) (recorded : key ∈ doc.indexKeys.toList) :
    id ∈ db.engine.index.lookup now key :=
  mem_lookup_of_written reflects covers outlasts (key_mem_writes held recorded) live

/-- If every document that lives can be read, what is got is what was added and lives. -/
theorem get_eq_ok_iff_live (distinct : (added.map Prod.fst).Nodup)
    (finite : ∀ entry ∈ added, entry.2.isFinite)
    (readable : ∀ id, ¬db.engine.documents.Unreadable now id) :
    db.get now id = .ok doc ↔ (id, doc) ∈ added ∧ db.Live now id := by
  rw [get, DocumentStore.get_eq_ok_iff, Live]
  constructor
  · rintro ⟨stored, found, decoded⟩
    obtain ⟨doc', held, rfl⟩ := exists_of_find? reflects covers found
    rw [Document.decode_encode (finite _ held)] at decoded
    split at decoded
    · cases decoded
      exact ⟨held, by rw [found]; rfl⟩
    · cases decoded
  · rintro ⟨held, live⟩
    obtain ⟨stored, found⟩ := Option.isSome_iff_exists.1 live
    obtain ⟨doc', held', rfl⟩ := exists_of_find? reflects covers found
    obtain rfl : doc = doc' := congrArg Prod.snd (List.inj_on_of_nodup_map distinct held held' rfl)
    refine ⟨_, found, ?_⟩
    cases decoded : Document.decode doc.encode with
    | error reason => exact absurd ⟨_, reason, found, decoded⟩ (readable id)
    | ok read =>
      rw [Document.decode_encode (finite _ held)] at decoded
      split at decoded
      · exact decoded.symm
      · cases decoded

/-- If every document that lives can be read, a query with the index and a scan have the same hits:
the live documents that the query selects. -/
theorem execute_eq_scan (outlasts : config.IndexOutlasts) (distinct : (added.map Prod.fst).Nodup)
    (finite : ∀ entry ∈ added, entry.2.isFinite)
    (readable : ∀ id, ¬db.engine.documents.Unreadable now id) (query : Query) :
    ∃ hits all, db.engine.execute now query = .ok hits ∧ db.engine.scan now query = .ok all ∧
      (hits.map (·.id)).Nodup ∧ (all.map (·.id)).Nodup ∧ (∀ hit, hit ∈ hits ↔ hit ∈ all) ∧
      ∀ id doc, ⟨id, doc⟩ ∈ hits ↔ ((id, doc) ∈ added ∧ db.Live now id) ∧ query.Selects doc := by
  by_cases nonempty : query.clauses = []
  · have blank : query.isEmpty := by simp [Query.isEmpty, nonempty]
    rw [Engine.execute, Engine.scan, if_pos blank, if_pos blank]
    exact ⟨[], [], rfl, rfl, List.nodup_nil, List.nodup_nil, fun _ => .rfl,
      by simp [Query.Selects, nonempty]⟩
  · cases scanned : db.engine.scan now query with
    | error e =>
      obtain ⟨id, unreadable⟩ := (Engine.scan_error_iff nonempty).1 ⟨e, scanned⟩
      exact absurd unreadable (readable id)
    | ok all =>
      have selected (id : DocId) (doc : Document) : (⟨id, doc⟩ : Hit) ∈ all ↔
          ((id, doc) ∈ added ∧ db.Live now id) ∧ query.Selects doc := by
        rw [Engine.mem_of_scan_eq_ok nonempty scanned, Query.Selects, and_iff_right nonempty,
          ← get_eq_ok_iff_live reflects covers distinct finite readable, get]
      obtain ⟨hits, executed, proposed⟩ := Engine.execute_of_scan_eq_ok nonempty scanned
      -- The index proposes every hit of the scan.
      have same (hit : Hit) : hit ∈ hits ↔ hit ∈ all := by
        refine (proposed hit).trans (and_iff_left_of_imp fun held clause clause_mem => ?_)
        obtain ⟨⟨entry, live⟩, -, holds⟩ := (selected hit.id hit.document).1 held
        exact mem_lookup_of_live reflects covers outlasts entry live
          (Clause.indexKey_mem_of_holds (holds clause clause_mem))
      exact ⟨hits, all, executed, rfl, Engine.nodup_of_execute_eq_ok nonempty executed,
        Engine.nodup_of_scan_eq_ok nonempty scanned, same,
        fun id doc => (same _).trans (selected id doc)⟩

/-- Of the documents that are written, each that lives is found, and nothing else is. -/
theorem findsLive (outlasts : config.IndexOutlasts) (distinct : (added.map Prod.fst).Nodup)
    (finite : ∀ entry ∈ added, entry.2.isFinite) : db.FindsLive now added where
  known := by
    intro id live
    obtain ⟨stored, found⟩ := Option.isSome_iff_exists.1 live
    obtain ⟨doc, held, -⟩ := exists_of_find? reflects covers found
    exact ⟨doc, held⟩
  recorded := mem_lookup_of_live reflects covers outlasts
  found := by
    intro readable text query parsed
    rw [search_of_parse_ok parsed, scan_of_parse_ok parsed]
    exact execute_eq_scan reflects covers outlasts distinct finite readable query
  malformed := by
    intro text reason parsed
    simp [search, scan, parsed]

end Reading

/-! ## Histories -/

/-- What some actions have written, and that it covers the documents. -/
theorem covers_play (outlasts : config.IndexOutlasts) {actions : List Action}
    (apart : (actions.flatMap (Action.wrote config)).Pairwise Write.Before)
    (forward : ForwardTo actions now) :
    ∃ kept, ((empty config).play actions).Reflects config kept now ∧
      Covers config kept (actions.flatMap (Action.wrote config)) now := by
  have forward' : (0 :: (actions.flatMap Action.readings ++ [now])).Pairwise (· ≤ ·) :=
    List.pairwise_cons.2 ⟨fun _ _ => Nat.zero_le _, forward⟩
  have start : (empty config).Reflects config ⟨nothing, nothing⟩ 0 := ⟨.empty _ 0, .empty _ 0⟩
  exact (Covers.empty config 0).play outlasts start forward' apart

/-- Whatever the order of the actions is, each living document is found by them. -/
theorem findsLive_of_schedules (outlasts : config.IndexOutlasts)
    (distinct : (added.map Prod.fst).Nodup) (finite : ∀ entry ∈ added, entry.2.isFinite)
    {actions : List Action} (schedules : Schedules config added actions)
    (forward : ForwardTo actions now) :
    ((empty config).play actions).FindsLive now added := by
  have apart := pairwise_before distinct
  rw [← schedules] at apart
  obtain ⟨kept, reflects, covers⟩ := covers_play outlasts apart forward
  rw [schedules] at covers
  exact findsLive reflects covers outlasts distinct finite

/-- Whatever becomes of other calls, a document whose adding has returned is in the index under all
its keys as long as it lives. -/
theorem mem_lookup_of_mem_ledger (outlasts : config.IndexOutlasts) {history : List Call}
    (distinct : (((empty config).holdings history).map Prod.fst).Nodup)
    (forward : ForwardTo (history.flatMap (Call.actions config)) now)
    (held : (id, doc) ∈ (empty config).ledger history)
    (live : ((empty config).run history).Live now id) (recorded : key ∈ doc.indexKeys.toList) :
    id ∈ ((empty config).run history).engine.index.lookup now key := by
  have start := configured_empty config
  have apart := (pairwise_before distinct).sublist (wrote_sublist_holdings start history)
  obtain ⟨kept, reflects, covers⟩ := covers_play outlasts apart forward
  rw [play_history start] at reflects
  refine mem_lookup_of_written reflects covers outlasts ?_ live
  exact wrote_of_mem_ledger start held (List.mem_cons_of_mem _ (List.mem_map_of_mem recorded))

/-- Where the index lives at least as long as the documents it hides none that lives, whenever it is
that expired documents and entries are removed.  Every document that lives is in it under all its
keys, so a search finds what a scan finds.  This is so for documents that are added one after
another with purges between any two actions on the stores, and for every history of calls of which
none is broken off.  Calls are broken off exactly where an action needs a deadline that is out of
range; the documents that have been added by the others are in the index all the same. -/
theorem finds_every_live_document (config : Config) (outlasts : config.IndexOutlasts)
    (now : Instant) :
    (∀ (added : List Entry) (actions : List Action), (added.map Prod.fst).Nodup →
      (∀ entry ∈ added, entry.2.isFinite) → Schedules config added actions →
      ForwardTo actions now → ((empty config).play actions).FindsLive now added) ∧
    (∀ history : List Call, (((empty config).ledger history).map Prod.fst).Nodup →
      ForwardTo (history.flatMap (Call.actions config)) now →
      (∀ entry ∈ (empty config).transcript history, ¬entry.2.isOverflow) →
      ((empty config).run history).FindsLive now ((empty config).ledger history)) ∧
    (∀ history : List Call, (∀ entry ∈ (empty config).transcript history, ¬entry.2.isOverflow) ↔
      ∀ action ∈ history.flatMap (Call.actions config), action.Fits config) ∧
    ∀ history : List Call, (((empty config).holdings history).map Prod.fst).Nodup →
      ForwardTo (history.flatMap (Call.actions config)) now →
      ∀ id doc key, (id, doc) ∈ (empty config).ledger history →
        ((empty config).run history).Live now id → key ∈ doc.indexKeys.toList →
        id ∈ ((empty config).run history).engine.index.lookup now key := by
  have start := configured_empty config
  refine ⟨?_, ?_, returns_iff start, ?_⟩
  · intro added actions distinct finite schedules forward
    exact findsLive_of_schedules outlasts distinct finite schedules forward
  · intro history distinct forward returns
    have fits := (returns_iff start history).1 returns
    rw [← play_history start]
    exact findsLive_of_schedules outlasts distinct (fun _ => finite_of_mem_ledger)
      (schedules_history start history fun _ _ _ _ held => fits _ held) forward
  · intro history distinct forward id doc key held live recorded
    exact mem_lookup_of_mem_ledger outlasts distinct forward held live recorded

/-- Documents and index entries live ten nanoseconds. -/
def brief : Config := ⟨some ⟨0, 10, by decide, by decide⟩, some ⟨0, 10, by decide, by decide⟩, none⟩

/-- A document with one field. -/
def oneField : Document := .ofFields [("a", .string "1")]

/-- Two documents with the same keys.  When the second one is recorded the first is dead, and so are
the entries under both keys, of which one has been removed. -/
def sharedKeys : List Action :=
  [.store 0 ⟨"first"⟩ oneField, .record 0 0 ⟨"first"⟩ "a", .purgeIndex 1,
    .record 1 1 ⟨"first"⟩ "a=1", .store 5 ⟨"second"⟩ oneField, .purgeDocuments 10,
    .record 11 12 ⟨"second"⟩ "a", .purgeIndex 12, .record 12 13 ⟨"second"⟩ "a=1"]

/-- Documents live ten nanoseconds, and index entries as long as is possible from the first
moment. -/
def boundless : Config :=
  ⟨some ⟨0, 10, by decide, by decide⟩, some ⟨0x7fffffffffffffff, 999999999, by decide, by decide⟩,
    none⟩

/-- Two documents with the same keys.  For those of the second it is too late. -/
def tooLate : List Call :=
  [.add 0 ⟨"first"⟩ oneField fun _ => 0, .add 1 ⟨"second"⟩ oneField fun _ => 2]

/-- The second document is found, and alone.  Where its adding is broken off it lives and is not
found, but the first one is as before. -/
theorem finds_sharedKeys :
    (∃ hits, ((empty brief).play sharedKeys).search 14 "a:1" = .ok hits ∧
      ∀ id doc, ⟨id, doc⟩ ∈ hits ↔ id = ⟨"second"⟩ ∧ doc = oneField) ∧
    let db := (empty boundless).run tooLate
    (db.Live 3 ⟨"first"⟩ ∧ ⟨"first"⟩ ∈ db.engine.index.lookup 3 "a") ∧
      db.Live 3 ⟨"second"⟩ ∧ (db.engine.index.lookup 3 "a").ids = [⟨"first"⟩] := by
  have keys : oneField.indexKeys.toList = ["a", "a=1"] := by decide
  have schedules : Schedules brief [(⟨"first"⟩, oneField), (⟨"second"⟩, oneField)] sharedKeys := by
    rw [Schedules, Action.flatMap_wrote_of_fits (by decide)]
    simp [sharedKeys, Action.writes, writesOf, keys]
  have finds := (finds_every_live_document brief (Nat.le_refl _) 14).1
    [(⟨"first"⟩, oneField), (⟨"second"⟩, oneField)] sharedKeys (by decide) (by decide) schedules
    (by simp [ForwardTo, sharedKeys, Action.readings])
  have ledger : (empty boundless).ledger tooLate = [(⟨"first"⟩, oneField)] := rfl
  have recorded := (finds_every_live_document boundless (by decide) 3).2.2.2 tooLate (by decide)
    (by decide) ⟨"first"⟩ oneField "a" (by simp [ledger]) (by decide) (by decide)
  refine ⟨?_, ⟨by decide, recorded⟩, by decide, by decide⟩
  have shown : ((empty brief).play sharedKeys).engine.documents.documents.snapshot 14 =
      [(⟨"second"⟩, oneField.encode)] := rfl
  have live (id : DocId) : ((empty brief).play sharedKeys).Live 14 id ↔ id = ⟨"second"⟩ := by
    rw [Live, Option.isSome_iff_exists]
    simp only [← TimedMap.mem_snapshot, shown, List.mem_singleton, Prod.mk.injEq, exists_and_left,
      exists_eq, and_true]
  have readable (id : DocId) :
      ¬((empty brief).play sharedKeys).engine.documents.Unreadable 14 id := by
    rintro ⟨stored, reason, found, malformed⟩
    rw [← TimedMap.mem_snapshot, shown, List.mem_singleton] at found
    cases found
    rw [Document.decode_encode (by decide), if_pos (by decide)] at malformed
    cases malformed
  have bare : Clause.IsBare ⟨["a"], .eq, "1"⟩ := by
    simp [Clause.IsBare, IsBareName, IsBareValue]
  have parsed : Query.parse "a:1" = .ok ⟨[⟨["a"], .eq, "1"⟩]⟩ :=
    Query.parse_of_spelling (.mk 0 0 (.last (Clause.spelling_display bare)))
  obtain ⟨hits, all, searched, -, -, -, -, selected⟩ := finds.found readable parsed
  refine ⟨hits, searched, fun id doc => ?_⟩
  have selects : Query.Selects ⟨[⟨["a"], .eq, "1"⟩]⟩ oneField :=
    ⟨by decide, by simpa using (by decide : Clause.holds ⟨["a"], .eq, "1"⟩ oneField = true)⟩
  rw [selected, live]
  constructor
  · rintro ⟨⟨held, rfl⟩, -⟩
    exact ⟨rfl, by simpa using held⟩
  · rintro ⟨rfl, rfl⟩
    exact ⟨⟨by simp, rfl⟩, selects⟩

end Database
end DocumentBase
