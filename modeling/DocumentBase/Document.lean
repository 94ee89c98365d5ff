import DocumentBase.Error
import DocumentBase.Json.Shape

/-!
# DocumentBase.Document

Documents: objects whose fields are in order at every depth.  Their stored form is their JSON text
as bytes.
-/

namespace DocumentBase

/-- A document. -/
structure Document where
  fields : List (String × Value)
  ordered : (Value.object fields).Ordered

namespace Document

/-! ## Making documents -/

/-- The document with the given fields; of a repeated name the last field stays. -/
def ofFields (fields : List (String × Value)) : Document :=
  ⟨Fields.ofEntries (Value.canonicalFields fields), Value.ordered_canonical (.object fields)⟩

/-- The document without fields. -/
def empty : Document := ofFields []

/-- The document that a value is; only an object is one. -/
def ofValue : Value → Except Error Document
  | .object fields => .ok (ofFields fields)
  | value => .error (.notAnObject value)

/-- The document that a plain JSON value is. -/
def ofJson (json : Json) : Except Error Document := ofValue (Value.ofJson json)

/-- The document with a value put under a name. -/
def withField (doc : Document) (name : String) (value : Value) : Document where
  fields := Fields.insert name value.canonical doc.fields
  ordered := by
    have h := doc.ordered
    simp only [Value.Ordered] at h ⊢
    refine ⟨Fields.ascending_insert h.1, Value.orderedFields_iff.2 fun entry he => ?_⟩
    rcases Fields.mem_insert he with rfl | he
    · exact Value.ordered_canonical value
    · exact Value.orderedFields_iff.1 h.2 entry he

/-- The document as a value. -/
def toValue (doc : Document) : Value := .object doc.fields

/-- The document whose one field holds this document. -/
def under (name : String) (doc : Document) : Document where
  fields := [(name, doc.toValue)]
  ordered := by
    simpa [Value.Ordered, Value.OrderedFields, Fields.Ascending, toValue] using doc.ordered

/-! ## Looking at documents -/

/-- The value under a name. -/
def find? (doc : Document) (name : String) : Option Value := Fields.find? name doc.fields

/-- The value that a path leads to. -/
def resolve (doc : Document) (path : List String) : Option Value := Value.resolve doc.fields path

/-- Whether every number in the document is finite. -/
def isFinite (doc : Document) : Bool := Value.fieldsFinite doc.fields

/-- Equality of documents, as of values. -/
def eq (doc other : Document) : Bool := Value.eqFields doc.fields other.fields

/-- The document as plain JSON. -/
def toJson (doc : Document) : Json := .object (Value.fieldsToJson doc.fields)

/-! ## The stored form -/

/-- The JSON text of a document. -/
def chars (doc : Document) : List Char := Json.objectChars (Value.fieldsChars doc.fields)

/-- The JSON text of a document. -/
def text (doc : Document) : String := String.ofList doc.chars

/-- The stored form of a document. -/
def encode (doc : Document) : List UInt8 := Utf8.encode doc.chars

/-- Reads a document in which at most `depth` containers are open at once, itself included. -/
def reader (depth : Nat) : Json.Reader Document := do
  let first ← Json.Reader.ahead .value
  if first = Ascii.openBrace then
    Json.Reader.nested depth fun depth => do
      let entries ← Json.Reader.fields (Json.Reader.entry (Json.Reader.tree depth)) []
      pure (ofFields (Value.ofTreeEntries entries.reverse))
  else Json.Reader.mismatch first "a map"

/-- Decodes the JSON text of a document. -/
def decode (text : List UInt8) : Except DecodeError Document :=
  Json.Reader.whole (reader Json.depthLimit) text

end Document
end DocumentBase
