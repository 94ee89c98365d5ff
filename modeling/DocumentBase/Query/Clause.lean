import DocumentBase.Index.Key

/-!
# DocumentBase.Query.Clause

Queries as data: clauses that all have to hold, each comparing what a path leads to with a literal.
-/

namespace DocumentBase

/-- How a clause compares a leaf with its literal: the text has to be the same, or the number has to
be strictly less or strictly greater. -/
inductive Operator where
  | eq
  | lt
  | gt
deriving DecidableEq

/-- The sign that stands for the operator. -/
def Operator.symbol : Operator → String
  | eq => "="
  | lt => "<"
  | gt => ">"

/-- One condition on a document. -/
structure Clause where
  path : List String
  op : Operator
  literal : String
deriving DecidableEq

namespace Clause

/-- The index key under which every document is recorded that satisfies the clause.  Only an
equality says which leaf it wants; for the others the path has to lead to a leaf. -/
def indexKey (clause : Clause) : String :=
  match clause.op with
  | .eq => pathValueKey clause.path clause.literal
  | .lt | .gt => pathKey clause.path

/-- The clause in the notation of queries, where equality has no sign of its own.  Nothing is
quoted. -/
def display (clause : Clause) : String :=
  let sign :=
    match clause.op with
    | .eq => ""
    | op => op.symbol
  pathKey clause.path ++ ":" ++ sign ++ clause.literal

end Clause

/-- A query: the conjunction of its clauses. -/
structure Query where
  clauses : List Clause
deriving DecidableEq

namespace Query

/-- The query without clauses. -/
def empty : Query := ⟨[]⟩

def size (query : Query) : Nat := query.clauses.length

def isEmpty (query : Query) : Bool := query.clauses.isEmpty

end Query
end DocumentBase
