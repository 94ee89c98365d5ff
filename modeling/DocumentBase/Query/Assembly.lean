import DocumentBase.Query.Token

/-!
# DocumentBase.Query.Assembly

Making clauses of tokens.  Names and comparisons are gathered until a value completes the clause; a
clause that lacks a part is refused, with the first part that it lacks.
-/

namespace DocumentBase

/-- What has been gathered of a clause. -/
structure PartialClause where
  path : List String := []
  op : Option Operator := none
deriving DecidableEq

namespace PartialClause

/-- Whether anything has been gathered. -/
def isStarted (gathered : PartialClause) : Bool :=
  !gathered.path.isEmpty || gathered.op.isSome

/-- The clause that a value completes. -/
def finish (gathered : PartialClause) (value : String) : Except QueryError Clause :=
  if gathered.path.isEmpty then .error (.missingPath value)
  else
    match gathered.op with
    | none => .error (.missingColon gathered.path)
    | some op =>
      if value.isEmpty then .error (.emptyValue gathered.path)
      else .ok ⟨gathered.path, op, value⟩

end PartialClause

namespace Clause

/-- The clauses of some tokens, the first of which has been partly gathered.  Of two comparisons in
one clause the later counts. -/
def assemble (gathered : PartialClause) : List Token → Except QueryError (List Clause)
  | [] => .ok []
  | .segment text :: rest => assemble { gathered with path := gathered.path ++ [text] } rest
  | .operator op :: rest => assemble { gathered with op := some op } rest
  | .value text :: rest =>
    match gathered.finish text with
    | .error e => .error e
    | .ok clause => (assemble {} rest).map (clause :: ·)
  | .eof :: rest =>
    if gathered.isStarted then .error (.incompleteClause gathered.path)
    else assemble gathered rest

/-- The clauses that some tokens write. -/
def ofTokens (tokens : List Token) : Except QueryError (List Clause) := assemble {} tokens

end Clause

namespace Query

/-- The query that a text writes.  The empty text is the query without clauses; any other text has
to write a clause at least. -/
def parse (text : String) : Except QueryError Query :=
  if text.isEmpty then .ok empty
  else
    match Token.ofText text with
    | .error e => .error e
    | .ok tokens =>
      match Clause.ofTokens tokens with
      | .error e => .error e
      | .ok [] => .error (.noClauses text)
      | .ok clauses => .ok ⟨clauses⟩

end Query
end DocumentBase
