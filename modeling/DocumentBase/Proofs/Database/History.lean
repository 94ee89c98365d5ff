import DocumentBase.Database

/-!
# DocumentBase.Proofs.Database.History

Histories of a database: the calls that callers make of it, one after another.  Beside the state
that a history leads to, a transcript is kept of the answers, and a ledger of the documents that
were added on the way, each under the identifier that the caller was given for it.  A call that is
broken off has given no identifier, so its document is not in the ledger, even where it is stored.

A call carries what it is told by the world outside: the present moment, and the identifier that is
generated.  The removal of expired entries in the background is a purge like any other, so a history
may hold purges that no caller asked for.
-/

namespace DocumentBase

/-- A call of a database. -/
inductive Call where
  | add (now : Instant) (fresh : DocId) (doc : Document) (clock : String → Instant)
  | addJson (now : Instant) (fresh : DocId) (json : Json) (clock : String → Instant)
  | get (now : Instant) (id : DocId)
  | search (now : Instant) (query : String)
  | searchResults (now : Instant) (query : String)
  | scan (now : Instant) (query : String)
  | size (now : Instant)
  | isEmpty (now : Instant)
  | purge (now later : Instant)

/-- The answer to a call. -/
inductive Reply where
  | added (outcome : Outcome (Except Error DocId))
  | found (answer : Except Error Document)
  | hits (answer : Except Error (List Hit))
  | results (answer : Except Error Results)
  | size (count : Nat)
  | isEmpty (answer : Bool)
  | purged (count : Nat)

/-- Whether a call has been broken off. -/
def Reply.isOverflow : Reply → Bool
  | added .overflowed => true
  | _ => false

/-- A document with the identifier that it has in a database. -/
abbrev Entry := DocId × Document

/-- The entry that adding a document makes, if the answer is an identifier. -/
def Entry.ofOutcome (doc : Document) : Outcome (Except Error DocId) → List Entry
  | .returned (.ok id) => [(id, doc)]
  | .returned (.error _) | .overflowed => []

namespace Database

/-- The database that a call leaves behind.  Reading leaves it as it is. -/
def perform (db : Database) : Call → Database
  | .add now fresh doc clock => (db.add now fresh doc clock).2
  | .addJson now fresh json clock => (db.addJson now fresh json clock).2
  | .purge now later => (db.purge now later).2
  | .get .. | .search .. | .searchResults .. | .scan .. | .size .. | .isEmpty .. => db

/-- The entry that a call makes, if it adds a document and returns its identifier. -/
def entered (db : Database) : Call → List Entry
  | .add now fresh doc clock => Entry.ofOutcome doc (db.add now fresh doc clock).1
  | .addJson now fresh json clock =>
    match Document.ofJson json with
    | .ok doc => Entry.ofOutcome doc (db.addJson now fresh json clock).1
    | .error _ => []
  | .get .. | .search .. | .searchResults .. | .scan .. | .size .. | .isEmpty .. | .purge .. => []

/-- The answer that a call gets. -/
def reply (db : Database) : Call → Reply
  | .add now fresh doc clock => .added (db.add now fresh doc clock).1
  | .addJson now fresh json clock => .added (db.addJson now fresh json clock).1
  | .get now id => .found (db.get now id)
  | .search now query => .hits (db.search now query)
  | .searchResults now query => .results (db.searchResults now query)
  | .scan now query => .hits (db.scan now query)
  | .size now => .size (db.size now)
  | .isEmpty now => .isEmpty (db.isEmpty now)
  | .purge now later => .purged (db.purge now later).1

/-- The database that a history leads to. -/
def run (db : Database) (history : List Call) : Database := history.foldl perform db

/-- The entries that a history makes, the first one first. -/
def ledger (db : Database) : List Call → List Entry
  | [] => []
  | call :: rest => db.entered call ++ (db.perform call).ledger rest

/-- The calls of a history with their answers. -/
def transcript (db : Database) : List Call → List (Call × Reply)
  | [] => []
  | call :: rest => (call, db.reply call) :: (db.perform call).transcript rest

@[simp] theorem run_cons (db : Database) (call : Call) (rest : List Call) :
    db.run (call :: rest) = (db.perform call).run rest := rfl

/-- A call is answered from where the calls before it have left the database. -/
theorem transcript_cons (db : Database) (call : Call) (rest : List Call) :
    db.transcript (call :: rest) = (call, db.reply call) :: (db.perform call).transcript rest := rfl

/-! ## What a call can do -/

/-- The database with a document stored and recorded. -/
def keeping (db : Database) (now : Instant) (id : DocId) (doc : Document)
    (clock : String → Instant) : Database :=
  { db with engine := ⟨⟨(db.engine.documents.documents.set now id doc.encode).2⟩,
    db.engine.index.record clock id doc.indexKeys.toList⟩ }

/-- Adding a document keeps it, and returns the fresh identifier unless it is broken off among its
keys.  Otherwise it fails, or is broken off before it, and leaves everything as it was. -/
theorem add_eq (db : Database) (now : Instant) (fresh : DocId) (doc : Document)
    (clock : String → Instant) :
    db.add now fresh doc clock =
      if doc.isFinite then
        if now.Fits db.engine.documents.documents.ttl then
          ((db.engine.index.recording clock doc.indexKeys.toList).map fun _ => .ok fresh,
            db.keeping now fresh doc clock)
        else (.overflowed, db)
      else (.returned (.error .notFinite), db) := by
  rw [add, DocumentStore.add_eq]
  cases doc.isFinite with
  | false => rfl
  | true => by_cases fits : now.Fits db.engine.documents.documents.ttl <;> simp [fits, keeping]

/-- Adding a document is not broken off where the deadlines are in range that it needs. -/
theorem add_ne_overflowed_iff {db : Database} {now : Instant} {fresh : DocId} {doc : Document}
    {clock : String → Instant} :
    (db.add now fresh doc clock).1 ≠ .overflowed ↔ (doc.isFinite →
      now.Fits db.engine.documents.documents.ttl ∧
        db.engine.index.FitsAll clock doc.indexKeys.toList) := by
  rw [add_eq]
  by_cases finite : doc.isFinite <;> by_cases fits : now.Fits db.engine.documents.documents.ttl <;>
    simp [finite, fits, Index.recording]

/-- The entry of a document that is finite and for which all deadlines are in range. -/
theorem ofOutcome_add (db : Database) (now : Instant) (fresh : DocId) (doc : Document)
    (clock : String → Instant) :
    Entry.ofOutcome doc (db.add now fresh doc clock).1 =
      if doc.isFinite ∧ now.Fits db.engine.documents.documents.ttl ∧
        db.engine.index.FitsAll clock doc.indexKeys.toList then [(fresh, doc)] else [] := by
  rw [add_eq]
  by_cases finite : doc.isFinite <;> by_cases fits : now.Fits db.engine.documents.documents.ttl <;>
    by_cases keys : db.engine.index.FitsAll clock doc.indexKeys.toList <;>
    simp [finite, fits, keys, Index.recording, Entry.ofOutcome]

/-- What adding a document can do: nothing, or it keeps the document.  Then it returns the fresh
identifier, unless it is broken off among the keys. -/
theorem add_cases (db : Database) (now : Instant) (fresh : DocId) (doc : Document)
    (clock : String → Instant) :
    ((db.add now fresh doc clock).2 = db ∧
      Entry.ofOutcome doc (db.add now fresh doc clock).1 = []) ∨
    (doc.isFinite ∧ now.Fits db.engine.documents.documents.ttl ∧
      (db.add now fresh doc clock).2 = db.keeping now fresh doc clock ∧
      Entry.ofOutcome doc (db.add now fresh doc clock).1 =
        if db.engine.index.FitsAll clock doc.indexKeys.toList then [(fresh, doc)] else []) := by
  rw [ofOutcome_add, add_eq]
  by_cases finite : doc.isFinite <;> by_cases fits : now.Fits db.engine.documents.documents.ttl <;>
    simp [finite, fits]

/-- A call changes nothing, keeps one document more, or purges.  A document that is kept is entered
as well, unless the call is broken off among its keys. -/
theorem perform_cases (db : Database) (call : Call) :
    (db.perform call = db ∧ db.entered call = []) ∨
    (∃ now fresh doc clock, doc.isFinite ∧ now.Fits db.engine.documents.documents.ttl ∧
      db.perform call = db.keeping now fresh doc clock ∧
      db.entered call =
        if db.engine.index.FitsAll clock doc.indexKeys.toList then [(fresh, doc)] else []) ∨
    (∃ now later, db.perform call = (db.purge now later).2 ∧ db.entered call = []) := by
  cases call with
  | add now fresh doc clock =>
    exact (db.add_cases now fresh doc clock).imp_right fun kept =>
      .inl ⟨now, fresh, doc, clock, kept⟩
  | addJson now fresh json clock =>
    simp only [perform, entered, addJson]
    cases Document.ofJson json with
    | error e => exact .inl ⟨rfl, rfl⟩
    | ok doc =>
      exact (db.add_cases now fresh doc clock).imp_right fun kept =>
        .inl ⟨now, fresh, doc, clock, kept⟩
  | purge now later => exact .inr (.inr ⟨now, later, rfl, rfl⟩)
  | get | search | searchResults | scan | size | isEmpty => exact .inl ⟨rfl, rfl⟩

end Database
end DocumentBase
