import DocumentBase.Json.Text
import DocumentBase.Text.Quoted

/-!
# DocumentBase.Json.Error

Why a JSON text does not decode.  A text can end too early, break the grammar of JSON, or be sound
JSON of the wrong shape; the three categories are told apart because only the first can be mended by
reading on, and only the last is about the data.
-/

namespace DocumentBase

/-- What a reader was in the middle of. -/
inductive Json.Part where
  | value
  | list
  | object
  | string
deriving DecidableEq

/-- The name of a part, with its article. -/
def Json.Part.name : Json.Part → String
  | value => "a value"
  | list => "a list"
  | object => "an object"
  | string => "a string"

/-- What was found where something else was expected: a scalar with its content, a list or an
object. -/
inductive Json.Found where
  | scalar (s : Json.Scalar)
  | list
  | object
deriving DecidableEq

def Json.Found.describe : Json.Found → String
  | scalar .null => "null"
  | scalar (.bool b) => "boolean `" ++ String.ofList (Json.boolChars b) ++ "`"
  | scalar (.number (.integer n _)) => "integer `" ++ String.ofList (Json.integerChars n) ++ "`"
  | scalar (.number (.double x)) => "floating point `" ++ String.ofList (x.write .json) ++ "`"
  | scalar (.string s) => "string " ++ Text.quoted s
  | list => "sequence"
  | object => "map"

/-- The reason why a text does not decode. -/
inductive DecodeError where
  /-- The text ends inside the given part. -/
  | endOfText (inside : Json.Part)
  | expectedValue
  | expectedWord
  | expectedColon
  | expectedCommaOrListEnd
  | expectedCommaOrObjectEnd
  | trailingComma
  | trailingCharacters
  | nameNotAString
  | invalidNumber
  | numberOutOfRange
  | invalidEscape
  | invalidUtf8
  | loneSurrogate
  | missingSurrogate
  | controlCharacter
  /-- More containers are open than the reader allows. -/
  | tooDeep
  | wrongType (found : Json.Found) (expected : String)
  | wrongValue (found : Json.Found) (expected : String)
  /-- A record given as a list has only `length` elements. -/
  | wrongLength (length : Nat) (expected : String)
  | missingField (name : String)
  | duplicateField (name : String)
  | unknownField (name : String) (known : List String)
  | unknownVariant (name : String) (known : List String)
  | durationOverflow
deriving DecidableEq

namespace DecodeError

/-- The category of a reason. -/
inductive Category where
  | endOfText
  | grammar
  | data
deriving DecidableEq

def category : DecodeError → Category
  | endOfText _ => .endOfText
  | wrongType .. | wrongValue .. | wrongLength .. | missingField _ | duplicateField _
  | unknownField .. | unknownVariant .. | durationOverflow => .data
  | _ => .grammar

/-- The choice that a list of names leaves, each name between backticks. -/
def choice (names : List String) : String :=
  match names.map fun name => "`" ++ name ++ "`" with
  | [] => ""
  | [one] => one
  | [one, other] => one ++ " or " ++ other
  | many => "one of " ++ ", ".intercalate many

/-- The wording of a reason. -/
def message : DecodeError → String
  | endOfText inside => "EOF while parsing " ++ inside.name
  | expectedValue => "expected value"
  | expectedWord => "expected ident"
  | expectedColon => "expected `:`"
  | expectedCommaOrListEnd => "expected `,` or `]`"
  | expectedCommaOrObjectEnd => "expected `,` or `\x7d`"
  | trailingComma => "trailing comma"
  | trailingCharacters => "trailing characters"
  | nameNotAString => "key must be a string"
  | invalidNumber => "invalid number"
  | numberOutOfRange => "number out of range"
  | invalidEscape => "invalid escape"
  | invalidUtf8 => "invalid unicode code point"
  | loneSurrogate => "lone leading surrogate in hex escape"
  | missingSurrogate => "unexpected end of hex escape"
  | controlCharacter => "control character (\\u0000-\\u001F) found while parsing a string"
  | tooDeep => "recursion limit exceeded"
  | wrongType found expected => "invalid type: " ++ found.describe ++ ", expected " ++ expected
  | wrongValue found expected => "invalid value: " ++ found.describe ++ ", expected " ++ expected
  | wrongLength length expected =>
    "invalid length " ++ String.ofList (Decimal.digitChars length) ++ ", expected " ++ expected
  | missingField name => "missing field `" ++ name ++ "`"
  | duplicateField name => "duplicate field `" ++ name ++ "`"
  | unknownField name known => "unknown field `" ++ name ++ "`, expected " ++ choice known
  | unknownVariant name known => "unknown variant `" ++ name ++ "`, expected " ++ choice known
  | durationOverflow => "overflow deserializing Duration"

end DecodeError
end DocumentBase
