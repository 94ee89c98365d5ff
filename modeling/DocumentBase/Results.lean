import DocumentBase.Document
import DocumentBase.Json.Record

/-!
# DocumentBase.Results

What a search returns: hits, and an envelope that carries their number along.
-/

namespace DocumentBase

/-- A document that satisfies a query, with its identifier. -/
structure Hit where
  id : DocId
  document : Document

/-- Hits with their number.  An envelope that has been read carries the number that was written in
it. -/
structure Results where
  hits : List Hit
  count : UInt64

/-! ## Identifiers as JSON -/

namespace DocId

def toJson (id : DocId) : Json := .string id.text

/-- Reads an identifier. -/
def reader : Json.Reader DocId := DocId.mk <$> Json.Reader.string

def decode (text : List UInt8) : Except DecodeError DocId := Json.Reader.whole reader text

end DocId

/-! ## Hits -/

namespace Hit

def toJson (hit : Hit) : Json :=
  .object [("document", hit.document.toJson), ("id", hit.id.toJson)]

/-- The parts of a hit that have been read. -/
structure Parts where
  id : Option DocId := none
  document : Option Document := none

/-- A hit as a record. -/
def shape (depth : Nat) : Json.RecordShape Parts Hit where
  title := "struct SearchHit"
  lengthTitle := "struct SearchHit with 2 elements"
  fields := [
    .ofReader "id" (·.id) (fun parts id => { parts with id := some id }) DocId.reader,
    .ofReader "document" (·.document) (fun parts doc => { parts with document := some doc })
      (Document.reader depth)]
  isClosed := false
  empty := {}
  finish parts := do
    let id ← Json.required "id" parts.id
    let document ← Json.required "document" parts.document
    .ok ⟨id, document⟩

/-- Reads a hit. -/
def reader (depth : Nat) : Json.Reader Hit := Json.Reader.record depth shape

def decode (text : List UInt8) : Except DecodeError Hit :=
  Json.Reader.whole (reader Json.depthLimit) text

end Hit

/-! ## Results -/

namespace Results

/-- No hits. -/
def empty : Results := ⟨[], 0⟩

/-- Hits, counted. -/
def ofHits (hits : List Hit) : Results := ⟨hits, UInt64.ofNat hits.length⟩

def isEmpty (results : Results) : Bool := results.hits.isEmpty

def ids (results : Results) : List DocId := results.hits.map (·.id)

/-- The hits in ascending order of their identifiers; hits of one identifier keep their order. -/
def sortById (results : Results) : Results :=
  { results with hits := results.hits.mergeSort fun a b => a.id.text ≤ b.id.text }

def toJson (results : Results) : Json :=
  .object [
    ("count", .number (.integer results.count.toNat (by have := results.count.toNat_lt; omega))),
    ("results", .array (results.hits.map Hit.toJson))]

/-- The parts of an envelope that have been read. -/
structure Parts where
  hits : Option (List Hit) := none
  count : Option { n : Nat // n < 0x10000000000000000 } := none

/-- Results as a record. -/
def shape (depth : Nat) : Json.RecordShape Parts Results where
  title := "struct SearchResults"
  lengthTitle := "struct SearchResults with 2 elements"
  fields := [
    .ofReader "results" (·.hits) (fun parts hits => { parts with hits := some hits })
      (Json.Reader.list depth Hit.reader),
    .ofReader "count" (·.count) (fun parts n => { parts with count := some n })
      (Json.Reader.natural _ "usize")]
  isClosed := false
  empty := {}
  finish parts := do
    let hits ← Json.required "results" parts.hits
    let count ← Json.required "count" parts.count
    .ok ⟨hits, UInt64.ofNat count⟩

/-- Reads results. -/
def reader (depth : Nat) : Json.Reader Results := Json.Reader.record depth shape

def decode (text : List UInt8) : Except DecodeError Results :=
  Json.Reader.whole (reader Json.depthLimit) text

end Results
end DocumentBase
