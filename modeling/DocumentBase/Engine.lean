import DocumentBase.DocumentStore
import DocumentBase.Index.Postings
import DocumentBase.Query.Matching
import DocumentBase.Results

/-!
# DocumentBase.Engine

Answering queries from a document store and an index.  The index only proposes candidates: a
document is a hit when it is there and satisfies every clause, whatever the index says of it.  The
other way to answer, which is what the first is measured by, looks at every document and at no
index.
-/

namespace DocumentBase

/-- A document store and an index of it. -/
structure Engine where
  documents : DocumentStore
  index : Index

namespace Engine

/-- What the index has under the keys of some clauses, clause by clause.  A document comes once for
each clause whose key it is recorded under. -/
def postings (engine : Engine) (now : Instant) (clauses : List Clause) : List DocId :=
  clauses.flatMap fun clause => (engine.index.lookup now clause.indexKey).ids

/-- The documents that are recorded under the key of every clause: those that come as often as there
are clauses. -/
def candidates (engine : Engine) (now : Instant) (clauses : List Clause) : List DocId :=
  let found := engine.postings now clauses
  found.eraseDups.filter fun id => found.count id == clauses.length

/-- The hit that a candidate is, if it is one.  A candidate that is not stored is none; one that
does not decode is a failure. -/
def verify (engine : Engine) (now : Instant) (query : Query) (id : DocId) :
    Except Error (Option Hit) :=
  match engine.documents.get now id with
  | .ok doc => .ok (if query.matches doc then some ⟨id, doc⟩ else none)
  | .error (.unknownDocument _) => .ok none
  | .error e => .error e

/-- The hits of a query, with the help of the index.  A query without clauses has none. -/
def execute (engine : Engine) (now : Instant) (query : Query) : Except Error (List Hit) :=
  if query.isEmpty then .ok []
  else ((engine.candidates now query.clauses).mapM (engine.verify now query)).map (·.filterMap id)

/-- The hits of a query among all documents.  A query without clauses has none. -/
def scan (engine : Engine) (now : Instant) (query : Query) : Except Error (List Hit) :=
  if query.isEmpty then .ok []
  else
    (engine.documents.getAll now).map fun documents =>
      (documents.filter fun (_, doc) => query.matches doc).map fun (id, doc) => ⟨id, doc⟩

end Engine
end DocumentBase
