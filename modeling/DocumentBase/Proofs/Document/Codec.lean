import DocumentBase.DocumentStore
import DocumentBase.Proofs.Document.Nulls

/-!
# DocumentBase.Proofs.Document.Codec

The stored form of documents.  Whatever text is written for a document, it decodes to the document
with its nulls, or fails because the document nests too deeply (`decode_written`).
-/

namespace DocumentBase.Document

open Json Json.Reader

/-- How many containers are nested in one another, the document itself included. -/
def nesting (doc : Document) : Nat := 1 + Value.fieldsNesting doc.fields

/-- The document with null in place of every number that is not finite. -/
def withNulls (doc : Document) : Document :=
  ⟨Value.fieldsWithNulls doc.fields, Value.ordered_withNulls doc.ordered⟩

theorem ext {doc other : Document} (h : doc.fields = other.fields) : doc = other := by
  cases doc
  cases other
  cases h
  rfl

/-- A document is nested as deep as its plain JSON. -/
@[simp] theorem nesting_toJson (doc : Document) : doc.toJson.nesting = doc.nesting := by
  rw [toJson, Json.nesting, Value.fieldsNesting_toJson, nesting]

/-- A document and its plain JSON are written alike. -/
@[simp] theorem chars_toJson (doc : Document) : doc.toJson.chars = doc.chars := by
  rw [toJson, Json.chars, Value.fieldsChars_toJson, chars]

/-- The stored form of a document is one of the texts that may be written for it. -/
theorem written_encode (doc : Document) : doc.toJson.Written doc.encode := by
  rw [encode, ← chars_toJson]
  exact written_self doc.toJson

/-! ## What is lost -/

/-- A document is equal to what is left of it exactly if nothing is lost. -/
theorem eq_withNulls (doc : Document) : doc.withNulls.eq doc = doc.isFinite :=
  Value.eqFields_withNulls doc.fields

/-- Nothing is lost of a document that is finite. -/
theorem withNulls_of_finite {doc : Document} (h : doc.isFinite) : doc.withNulls = doc :=
  ext (Value.fieldsWithNulls_of_finite h)

/-- A document that loses nothing is finite, for so is what is left of it. -/
theorem withNulls_eq_iff (doc : Document) : doc.withNulls = doc ↔ doc.isFinite := by
  refine ⟨fun same => ?_, withNulls_of_finite⟩
  rw [← same]
  exact Value.fieldsFinite_withNulls doc.fields

/-- Fields in order make a document in any order. -/
theorem ofFields_perm {doc : Document} {entries : List (String × Value)}
    (perm : doc.fields.Perm entries) : ofFields entries = doc := by
  have ordered := doc.ordered
  rw [Value.Ordered] at ordered
  have entries_ordered : Value.OrderedFields entries := Value.orderedFields_iff.2 fun entry he =>
    Value.orderedFields_iff.1 ordered.2 entry (perm.mem_iff.2 he)
  refine ext ?_
  show Fields.ofEntries (Value.canonicalFields entries) = doc.fields
  rw [Value.canonicalFields_of_ordered entries_ordered, Fields.ofEntries_perm ordered.1 perm]

/-! ## Decoding -/

/-- What a reader that allows a depth makes of a document's text. -/
def readWithin (depth : Nat) (doc : Document) : Except DecodeError Document :=
  if doc.nesting ≤ depth then .ok doc.withNulls else .error .tooDeep

/-- The text of a document is read back with its nulls, in whatever order the fields stand, up to
the depth that is allowed. -/
theorem reads_document {doc : Document} {other : Json} (h : doc.toJson.Rearranges other)
    (depth : Nat) : Reads (reader depth) other.chars (doc.readWithin depth) := by
  have same_nesting := nesting_rearranged h
  rw [nesting_toJson] at same_nesting
  rw [toJson, Rearranges] at h
  obtain ⟨front, others, rfl, same, perm⟩ := h
  have ordered := doc.ordered
  rw [Value.Ordered] at ordered
  rw [Json.nesting] at same_nesting
  intro rest delimited
  show (reader depth).run
    (Ascii.openBrace :: (Utf8.encode (commaJoin (fieldsChars others) ++ ['\x7d']) ++ rest)) = _
  rw [reader, run_bind_ok (run_ahead_cons .value rfl _), if_pos rfl]
  cases depth with
  | zero =>
    rw [readWithin, if_neg (by unfold nesting; omega)]
    rfl
  | succ depth =>
    rw [nested, run_bind_ok (run_advance 1 _), List.drop_succ_cons, List.drop_zero, run_bind,
      reads_fields others depth rest delimited, readWithin]
    by_cases within : fieldsNesting others ≤ depth
    · have entries : doc.withNulls.fields.Perm (Value.ofTreeEntries (fieldsToTrees others)) := by
        show (Value.fieldsWithNulls doc.fields).Perm _
        rw [← Value.ofTreeEntries_rearranged ordered.2 same, Value.ofTreeEntries_eq_map,
          Value.ofTreeEntries_eq_map]
        exact perm.map _
      rw [if_pos within, if_pos (by omega)]
      show Except.ok (ofFields (Value.ofTreeEntries (fieldsToTrees others).reverse.reverse), rest)
        = _
      rw [List.reverse_reverse, ofFields_perm entries]
      rfl
    · rw [if_neg within, if_neg (by omega)]
      rfl

/-- Whatever text is written for a document, it decodes to the document with its nulls, unless the
document nests too deeply. -/
theorem decode_written {doc : Document} {text : List UInt8} (h : doc.toJson.Written text) :
    decode text = doc.readWithin depthLimit := by
  obtain ⟨other, rearranged, rfl⟩ := h
  exact whole_of_reads (reads_document rearranged depthLimit)

/-- The stored form of a finite document decodes to the document, unless it nests too deeply. -/
theorem decode_encode {doc : Document} (finite : doc.isFinite) :
    decode doc.encode = if doc.nesting ≤ depthLimit then .ok doc else .error .tooDeep := by
  rw [decode_written doc.written_encode, readWithin, withNulls_of_finite finite]

end DocumentBase.Document
