import DocumentBase.Index.Key
import DocumentBase.Text.Quoted

/-!
# DocumentBase.Query.Error

Why a text is no query.  Positions count characters from zero.
-/

namespace DocumentBase

/-- The reason why a text is no query. -/
inductive QueryError where
  /-- A second colon before the space that ends the clause. -/
  | colonInValue (position : Nat)
  | spaceInPath (position : Nat)
  /-- The text ends behind a colon. -/
  | missingValue (position : Nat)
  /-- The quote at the position is never closed. -/
  | unclosedQuote (position : Nat)
  | noClauses (text : String)
  | missingPath (value : String)
  | missingColon (path : List String)
  | emptyValue (path : List String)
  /-- The text ends inside a clause. -/
  | incompleteClause (path : List String)
deriving DecidableEq

namespace QueryError

/-- A reason with the place where it arose. -/
def placed (what : String) (position : Nat) : String :=
  what ++ " at position " ++ toString position

/-- The wording of a reason. -/
def message : QueryError → String
  | colonInValue position => placed "unexpected ':' inside a value" position
  | spaceInPath position => placed "unexpected space inside a path" position
  | missingValue position => placed "expected a value after ':'" position
  | unclosedQuote position => placed "unterminated quoted string starting" position
  | noClauses text => "no clauses in query " ++ Text.quoted text
  | missingPath value => "clause for value " ++ Text.quoted value ++ " has no path"
  | missingColon path => "clause " ++ pathKey path ++ " has no ':'"
  | emptyValue path => "clause " ++ pathKey path ++ " has an empty value"
  | incompleteClause path => "incomplete clause " ++ Text.quoted (pathKey path)

end QueryError
end DocumentBase
