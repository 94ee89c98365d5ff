import DocumentBase.Config
import DocumentBase.Engine
import DocumentBase.Index.Leaves
import DocumentBase.Query.Assembly

/-!
# DocumentBase.Database

A database of documents in memory: documents are added once, and found again by their identifier or
by a query.  Adding a document stores it first and then records it in the index, key by key.

Every operation is told the present moment, and adding is told a fresh identifier as well.  An
operation that writes returns the database that it leaves behind, also where it fails or is broken
off.
-/

namespace DocumentBase

/-- A database. -/
structure Database where
  config : Config
  engine : Engine

namespace Database

/-- The empty database with the given settings. -/
def empty (config : Config) : Database :=
  ⟨config, .empty config.documentTtl, .empty config.indexTtl⟩

/-! ## Writing -/

/-- Adds a document: stores it and records its keys.  The keys are recorded after the document is
stored, each at the moment that `clock` gives.  If that is broken off the document stays stored. -/
def add (db : Database) (now : Instant) (fresh : DocId) (doc : Document)
    (clock : String → Instant := fun _ => now) : Outcome (Except Error DocId) × Database :=
  match db.engine.documents.add now fresh doc with
  | (.returned (.ok id), documents) =>
    let keys := doc.indexKeys.toList
    ((db.engine.index.recording clock keys).map fun _ => .ok id,
      { db with engine := ⟨documents, db.engine.index.record clock id keys⟩ })
  | (outcome, documents) => (outcome, { db with engine := { db.engine with documents } })

/-- Adds the document that a plain JSON value is. -/
def addJson (db : Database) (now : Instant) (fresh : DocId) (json : Json)
    (clock : String → Instant := fun _ => now) : Outcome (Except Error DocId) × Database :=
  match Document.ofJson json with
  | .ok doc => db.add now fresh doc clock
  | .error e => (.returned (.error e), db)

/-- Removes expired documents and then expired index keys, and counts both together. -/
def purge (db : Database) (now : Instant) (later : Instant := now) : Nat × Database :=
  let (documentCount, documents) := db.engine.documents.purge now
  let (keyCount, index) := db.engine.index.purge later
  (documentCount + keyCount, { db with engine := ⟨documents, index⟩ })

/-! ## Reading -/

/-- The document under an identifier. -/
def get (db : Database) (now : Instant) (id : DocId) : Except Error Document :=
  db.engine.documents.get now id

/-- The hits of a query, found with the index. -/
def search (db : Database) (now : Instant) (query : String) : Except Error (List Hit) :=
  match Query.parse query with
  | .ok query => db.engine.execute now query
  | .error e => .error (.query e)

/-- The hits of a query in their envelope. -/
def searchResults (db : Database) (now : Instant) (query : String) : Except Error Results :=
  (db.search now query).map Results.ofHits

/-- The hits of a query, found by looking at every document. -/
def scan (db : Database) (now : Instant) (query : String) : Except Error (List Hit) :=
  match Query.parse query with
  | .ok query => db.engine.scan now query
  | .error e => .error (.query e)

/-- The number of live documents. -/
def size (db : Database) (now : Instant) : Nat := db.engine.documents.size now

def isEmpty (db : Database) (now : Instant) : Bool := db.engine.documents.isEmpty now

end Database
end DocumentBase
