import DocumentBase.Json.Tree
import DocumentBase.Value.Basic

/-!
# DocumentBase.Value.Json

Values and JSON.  A value becomes plain JSON by losing what JSON cannot carry: NaN and the
infinities become null.  Plain JSON becomes a value by turning every numeral into the nearest
double.  There is a second way on each side, which does without plain JSON: a value is written as
text directly, and is made directly from the tree of a text.
-/

namespace DocumentBase.Value

/-! ## From and to plain JSON -/

mutual

/-- The value of a plain JSON value. -/
def ofJson : Json → Value
  | .null => null
  | .bool b => bool b
  | .number n => number n.toNumber
  | .string s => string s
  | .array items => array (ofJsonItems items)
  | .object fields => object (ofJsonFields fields)

def ofJsonItems : List Json → List Value
  | [] => []
  | item :: rest => ofJson item :: ofJsonItems rest

def ofJsonFields : List (String × Json) → List (String × Value)
  | [] => []
  | (name, value) :: rest => (name, ofJson value) :: ofJsonFields rest

end

/-- A number as plain JSON: null unless it is finite. -/
def numberToJson : Number → Json
  | .finite x => .number (.double x)
  | .nan | .infinite _ => .null

mutual

/-- The value as plain JSON. -/
def toJson : Value → Json
  | null => .null
  | bool b => .bool b
  | number x => numberToJson x
  | string s => .string s
  | array items => .array (itemsToJson items)
  | object fields => .object (fieldsToJson fields)

def itemsToJson : List Value → List Json
  | [] => []
  | item :: rest => item.toJson :: itemsToJson rest

def fieldsToJson : List (String × Value) → List (String × Json)
  | [] => []
  | (name, value) :: rest => (name, value.toJson) :: fieldsToJson rest

end

/-- What a person is shown: the text of a scalar, and the JSON text of anything else. -/
def display (value : Value) : String := value.leafText?.getD value.toJson.text

/-! ## From and to text -/

mutual

/-- The value that a text writes; of a repeated name the last entry counts. -/
def ofTree : Json.Tree → Value
  | .scalar .null => null
  | .scalar (.bool b) => bool b
  | .scalar (.number n) => number n.toNumber
  | .scalar (.string s) => string s
  | .list items => array (ofTrees items)
  | .object entries => object (Fields.ofEntries (ofTreeEntries entries))

def ofTrees : List Json.Tree → List Value
  | [] => []
  | item :: rest => ofTree item :: ofTrees rest

def ofTreeEntries : List (String × Json.Tree) → List (String × Value)
  | [] => []
  | (name, value) :: rest => (name, ofTree value) :: ofTreeEntries rest

end

/-- The JSON text of a number: null unless it is finite. -/
def numberChars : Number → List Char
  | .finite x => x.write .json
  | .nan | .infinite _ => Json.nullChars

mutual

/-- The JSON text of a value. -/
def chars : Value → List Char
  | null => Json.nullChars
  | bool b => Json.boolChars b
  | number x => numberChars x
  | string s => Json.stringChars s
  | array items => Json.listChars (itemsChars items)
  | object fields => Json.objectChars (fieldsChars fields)

def itemsChars : List Value → List (List Char)
  | [] => []
  | item :: rest => item.chars :: itemsChars rest

def fieldsChars : List (String × Value) → List (List Char)
  | [] => []
  | (name, value) :: rest => Json.fieldChars name value.chars :: fieldsChars rest

end

/-- The JSON text of a value. -/
def text (value : Value) : String := String.ofList value.chars

/-- Reads a value in which at most `depth` containers are open at once. -/
def reader (depth : Nat) : Json.Reader Value := ofTree <$> Json.Reader.tree depth

/-- Decodes the JSON text of a value. -/
def decode (text : List UInt8) : Except DecodeError Value :=
  Json.Reader.whole (reader Json.depthLimit) text

end DocumentBase.Value
