import DocumentBase.Document
import DocumentBase.TimedMap

/-!
# DocumentBase.DocumentStore

Documents under their identifiers, in stored form.  Documents are only ever added.  One that nests
too deeply is stored all the same, but does not decode when it is read.
-/

namespace DocumentBase

/-- Stored documents. -/
structure DocumentStore where
  documents : TimedMap DocId (List UInt8)

namespace DocumentStore

/-- The store without documents. -/
def empty (ttl : Option Duration) : DocumentStore := ⟨.empty ttl⟩

/-- Stores a document under a fresh identifier.  JSON has no text for NaN and the infinities, so a
document that holds one is refused. -/
def add (store : DocumentStore) (now : Instant) (fresh : DocId) (doc : Document) :
    Outcome (Except Error DocId) × DocumentStore :=
  if doc.isFinite then
    let (outcome, documents) := store.documents.set now fresh doc.encode
    (outcome.map fun _ => .ok fresh, ⟨documents⟩)
  else (.returned (.error .notFinite), store)

/-- A document that is finite is stored where its time to live fits.  Otherwise nothing changes. -/
theorem add_eq (store : DocumentStore) (now : Instant) (fresh : DocId) (doc : Document) :
    store.add now fresh doc =
      if doc.isFinite then
        if now.Fits store.documents.ttl then
          (.returned (.ok fresh), ⟨(store.documents.set now fresh doc.encode).2⟩)
        else (.overflowed, store)
      else (.returned (.error .notFinite), store) := by
  unfold add
  by_cases fits : now.Fits store.documents.ttl
  · simp [TimedMap.set_of_fits fits, fits]
  · simp [TimedMap.set_of_not_fits fits, fits]

/-- Decodes the stored form of a document. -/
def decodeStored (id : DocId) (stored : List UInt8) : Except Error Document :=
  (Document.decode stored).mapError (.corrupt id)

/-- The live document under an identifier. -/
def get (store : DocumentStore) (now : Instant) (id : DocId) : Except Error Document :=
  match store.documents.find? now id with
  | some stored => decodeStored id stored
  | none => .error (.unknownDocument id)

/-- Every live document; one that does not decode spoils the whole answer. -/
def getAll (store : DocumentStore) (now : Instant) : Except Error (List (DocId × Document)) :=
  (store.documents.snapshot now).mapM fun (id, stored) =>
    (decodeStored id stored).map fun doc => (id, doc)

/-- The number of live documents. -/
def size (store : DocumentStore) (now : Instant) : Nat := store.documents.size now

def isEmpty (store : DocumentStore) (now : Instant) : Bool := store.documents.isEmpty now

/-- Removes the expired documents, and counts them. -/
def purge (store : DocumentStore) (now : Instant) : Nat × DocumentStore :=
  let (count, documents) := store.documents.purge now
  (count, ⟨documents⟩)

end DocumentStore
end DocumentBase
