import DocumentBase.Document
import DocumentBase.Number.Literal
import DocumentBase.Query.Clause

/-!
# DocumentBase.Query.Matching

Which documents satisfy a clause.  The path has to lead to a leaf that is not null.  Equality
compares texts; the other two compare numbers, and a string that writes a number counts as one.
-/

namespace DocumentBase

namespace Value

/-- The number that a value stands for in a comparison. -/
def asNumber? : Value → Option Number
  | number x => some x
  | string s => Number.ofLiteral? s
  | _ => none

/-- Whether clauses can hold of the value at all: null, lists and objects satisfy none. -/
def isComparable : Value → Bool
  | bool _ | number _ | string _ => true
  | null | array _ | object _ => false

/-- The value and a literal as numbers, if both are. -/
def numericPair? (value : Value) (literal : String) : Option (Number × Number) :=
  match Number.ofLiteral? literal, value.asNumber? with
  | some right, some left => some (left, right)
  | _, _ => none

/-- Whether a value and a literal compare as an operator says. -/
def satisfies (value : Value) (op : Operator) (literal : String) : Bool :=
  value.isComparable &&
    match op with
    | .eq => value.leafText? == some literal
    | .lt => (value.numericPair? literal).any fun (left, right) => left.lt right
    | .gt => (value.numericPair? literal).any fun (left, right) => right.lt left

end Value

/-- Whether a document satisfies a clause. -/
def Clause.holds (clause : Clause) (doc : Document) : Bool :=
  match doc.resolve clause.path with
  | some value => value.satisfies clause.op clause.literal
  | none => false

/-- Whether a document satisfies every one of some clauses. -/
def Document.satisfiesAll (doc : Document) (clauses : List Clause) : Bool :=
  clauses.all (·.holds doc)

/-- Whether a document satisfies a query. -/
def Query.matches (query : Query) (doc : Document) : Bool := doc.satisfiesAll query.clauses

end DocumentBase
