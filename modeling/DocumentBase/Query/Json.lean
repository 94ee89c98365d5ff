import DocumentBase.Json.Record
import DocumentBase.Json.Tree
import DocumentBase.Query.Clause

/-!
# DocumentBase.Query.Json

Queries as JSON.  An operator is written by its name, clauses and queries are records.
-/

namespace DocumentBase

namespace Operator

/-- The names of the operators. -/
def variants : List (String × Operator) := [("Eq", eq), ("Lt", lt), ("Gt", gt)]

/-- The name of an operator. -/
def name : Operator → String
  | eq => "Eq"
  | lt => "Lt"
  | gt => "Gt"

def toJson (op : Operator) : Json := .string op.name

/-- Reads an operator. -/
def reader (depth : Nat) : Json.Reader Operator := Json.Reader.variant depth variants

def decode (text : List UInt8) : Except DecodeError Operator :=
  Json.Reader.whole (reader Json.depthLimit) text

end Operator

namespace Clause

def toJson (clause : Clause) : Json :=
  .object [
    ("op", clause.op.toJson),
    ("path", .array (clause.path.map .string)),
    ("value", .string clause.literal)]

/-- The parts of a clause that have been read. -/
structure Parts where
  path : Option (List String) := none
  op : Option Operator := none
  literal : Option String := none

/-- A clause as a record. -/
def shape (depth : Nat) : Json.RecordShape Parts Clause where
  title := "struct Clause"
  lengthTitle := "struct Clause with 3 elements"
  fields := [
    .ofReader "path" (·.path) (fun parts path => { parts with path := some path })
      (Json.Reader.list depth fun _ => Json.Reader.string),
    .ofReader "op" (·.op) (fun parts op => { parts with op := some op }) (Operator.reader depth),
    .ofReader "value" (·.literal) (fun parts literal => { parts with literal := some literal })
      Json.Reader.string]
  isClosed := false
  empty := {}
  finish parts := do
    let path ← Json.required "path" parts.path
    let op ← Json.required "op" parts.op
    let literal ← Json.required "value" parts.literal
    .ok ⟨path, op, literal⟩

/-- Reads a clause. -/
def reader (depth : Nat) : Json.Reader Clause := Json.Reader.record depth shape

def decode (text : List UInt8) : Except DecodeError Clause :=
  Json.Reader.whole (reader Json.depthLimit) text

end Clause

namespace Query

def toJson (query : Query) : Json :=
  .object [("clauses", .array (query.clauses.map Clause.toJson))]

/-- A query as a record.  Its state is the clauses, once they have been read. -/
def shape (depth : Nat) : Json.RecordShape (Option (List Clause)) Query where
  title := "struct Query"
  lengthTitle := "struct Query with 1 element"
  fields := [
    .ofReader "clauses" id (fun _ clauses => some clauses) (Json.Reader.list depth Clause.reader)]
  isClosed := false
  empty := none
  finish parts := Query.mk <$> Json.required "clauses" parts

/-- Reads a query. -/
def reader (depth : Nat) : Json.Reader Query := Json.Reader.record depth shape

def decode (text : List UInt8) : Except DecodeError Query :=
  Json.Reader.whole (reader Json.depthLimit) text

end Query
end DocumentBase
