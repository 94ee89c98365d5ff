import DocumentBase.DocId
import DocumentBase.Query.Error
import DocumentBase.Value.Json

/-!
# DocumentBase.Error

Why an operation fails.  An error is its cause; a report is what a caller is told: one of four
kinds, by which callers decide what to do, and a text for people.
-/

namespace DocumentBase

/-- The kinds of failure. -/
inductive ErrorKind where
  /-- The query is malformed. -/
  | invalidQuery
  /-- The identifier is unknown, or its document has expired. -/
  | notFound
  /-- What was handed in is no document. -/
  | invalidInput
  /-- A text does not decode, or a document cannot be stored. -/
  | internal
deriving DecidableEq

def ErrorKind.name : ErrorKind → String
  | invalidQuery => "InvalidQuery"
  | notFound => "NotFound"
  | invalidInput => "InvalidInput"
  | internal => "Internal"

/-- What a caller is told of a failure. -/
structure ErrorReport where
  kind : ErrorKind
  context : String
deriving DecidableEq

namespace ErrorReport

/-- The report as one line. -/
def display (report : ErrorReport) : String := report.kind.name ++ ": " ++ report.context

def isNotFound (report : ErrorReport) : Bool := report.kind == .notFound

end ErrorReport

/-- The cause of a failure. -/
inductive Error where
  | query (reason : QueryError)
  | unknownDocument (id : DocId)
  /-- A document has to be an object, and this value is none. -/
  | notAnObject (value : Value)
  | notFinite
  /-- A text that was handed in does not decode. -/
  | malformed (reason : DecodeError)
  /-- A stored document does not decode. -/
  | corrupt (id : DocId) (reason : DecodeError)

/-- What a caller is told of a cause. -/
def Error.report : Error → ErrorReport
  | query reason => ⟨.invalidQuery, reason.message⟩
  | unknownDocument id => ⟨.notFound, "document " ++ id.text⟩
  | notAnObject value =>
    ⟨.invalidInput, "document root must be an object, got " ++ value.display⟩
  | notFinite => ⟨.internal, "document contains a non-finite number"⟩
  | malformed reason => ⟨.internal, "JSON error: " ++ reason.message⟩
  | corrupt id reason => ⟨.internal, "corrupt document " ++ id.text ++ ": " ++ reason.message⟩

end DocumentBase
