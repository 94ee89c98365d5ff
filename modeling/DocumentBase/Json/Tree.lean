import DocumentBase.Fields
import DocumentBase.Json.Container

/-!
# DocumentBase.Json.Tree

A JSON text as it is written: the entries of an object in the order of the text, repeated names
included.  What has a meaning of its own is made from this tree when all of it has been read.  Plain
JSON needs no tree: its fields are put in order while the text is read.
-/

namespace DocumentBase.Json

/-- The structure of a JSON text. -/
inductive Tree where
  | scalar (s : Scalar)
  | list (items : List Tree)
  | object (entries : List (String × Tree))

/-- How many containers may be open at once. -/
def depthLimit : Nat := 127

namespace Reader

/-- A value by its first byte: what becomes of a scalar, or of what follows an opening bracket or an
opening brace. -/
def dispatch (leaf : Scalar → α) (list object : Reader α) : Reader α := do
  match ← ahead .value with
  | Ascii.openBracket => advance; list
  | Ascii.openBrace => advance; object
  | first => leaf <$> scalar first

/-- A value, given what follows an opening bracket and an opening brace. -/
def value (list object : Reader Tree) : Reader Tree := dispatch .scalar list object

/-- An entry of an object: what follows the name, put in front of the entries before it. -/
def entry (value : Reader α) (before : List (String × α)) (name : String) :
    Reader (List (String × α)) := do
  colon
  let v ← value
  pure ((name, v) :: before)

/-- A value in which at most `depth` containers are open at once. -/
def tree : (depth : Nat) → Reader Tree
  | 0 => value (fail .tooDeep) (fail .tooDeep)
  | depth + 1 =>
    let inner := tree depth
    value (.list <$> elements inner)
      ((fun entries => .object entries.reverse) <$> fields (entry inner) [])

/-- Reads a whole text: behind the value there are only blanks. -/
def whole (reader : Reader α) (text : List UInt8) : Except DecodeError α :=
  match reader.run text with
  | .error e => .error e
  | .ok (value, rest) =>
    if (skipBlanks rest).isEmpty then .ok value else .error .trailingCharacters

end Reader

/-! ## Plain values -/

/-- A scalar as a value. -/
def ofScalar : Scalar → Json
  | .null => null
  | .bool b => bool b
  | .number n => number n
  | .string s => string s

mutual

/-- The value that a text writes; of a repeated name the last entry counts. -/
def ofTree : Tree → Json
  | .scalar s => ofScalar s
  | .list items => array (ofTrees items)
  | .object entries => object (Fields.ofEntries (ofEntries entries))

/-- The values of the items of a list. -/
def ofTrees : List Tree → List Json
  | [] => []
  | item :: rest => ofTree item :: ofTrees rest

/-- The values of the entries of an object. -/
def ofEntries : List (String × Tree) → List (String × Json)
  | [] => []
  | (name, value) :: rest => (name, ofTree value) :: ofEntries rest

end

namespace Reader

/-- A field of an object: what follows the name, put among the fields before it. -/
def fieldInto (value : Reader α) (before : List (String × α)) (name : String) :
    Reader (List (String × α)) := do
  colon
  let v ← value
  pure (Fields.insert name v before)

/-- A plain value in which at most `depth` containers are open at once. -/
def plain : (depth : Nat) → Reader Json
  | 0 => dispatch ofScalar (fail .tooDeep) (fail .tooDeep)
  | depth + 1 =>
    let inner := plain depth
    dispatch ofScalar (.array <$> elements inner) (.object <$> fields (fieldInto inner) [])

end Reader

/-- Decodes a JSON text. -/
def decode (text : List UInt8) : Except DecodeError Json :=
  Reader.whole (Reader.plain depthLimit) text

end DocumentBase.Json
