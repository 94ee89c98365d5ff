import DocumentBase.Json.Basic
import DocumentBase.Number.Text

/-!
# DocumentBase.Json.Text

Writing JSON: compact text, without a blank outside strings.
-/

namespace DocumentBase.Json

/-! ## Strings -/

/-- A character of a string: quotes, backslashes and control characters below the space are
escaped, the short escape first; all else stands for itself. -/
def escapeChar (c : Char) : List Char :=
  if c = '"' then ['\\', '"']
  else if c = '\\' then ['\\', '\\']
  else if c = '\x08' then ['\\', 'b']
  else if c = '\x0c' then ['\\', 'f']
  else if c = '\n' then ['\\', 'n']
  else if c = '\r' then ['\\', 'r']
  else if c = '\t' then ['\\', 't']
  else if c.toNat < 0x20 then
    ['\\', 'u', '0', '0', Nat.digitChar (c.toNat / 16), Nat.digitChar (c.toNat % 16)]
  else [c]

/-- A string between its quotes. -/
def stringChars (s : String) : List Char := '"' :: (s.toList.flatMap escapeChar ++ ['"'])

/-! ## Lists and objects -/

/-- Texts one after the other with a comma between neighbours. -/
def commaJoin : List (List Char) → List Char
  | [] => []
  | [text] => text
  | text :: rest => text ++ ',' :: commaJoin rest

/-- The texts of some items as a list. -/
def listChars (items : List (List Char)) : List Char := '[' :: (commaJoin items ++ [']'])

/-- A field: the name, a colon, the text of the value. -/
def fieldChars (name : String) (value : List Char) : List Char := stringChars name ++ ':' :: value

/-- The texts of some fields as an object. -/
def objectChars (fields : List (List Char)) : List Char := '\x7b' :: (commaJoin fields ++ ['\x7d'])

/-! ## Values -/

def boolChars (b : Bool) : List Char :=
  if b then ['t', 'r', 'u', 'e'] else ['f', 'a', 'l', 's', 'e']

def nullChars : List Char := ['n', 'u', 'l', 'l']

/-- An integer: its digits, after a minus sign if it is negative. -/
def integerChars (n : Int) : List Char :=
  if n < 0 then '-' :: Decimal.digitChars n.natAbs else Decimal.digitChars n.natAbs

def numeralChars : Numeral → List Char
  | .integer n _ => integerChars n
  | .double x => x.write .json

mutual

/-- The text of a value. -/
def chars : Json → List Char
  | null => nullChars
  | bool b => boolChars b
  | number n => numeralChars n
  | string s => stringChars s
  | array items => listChars (itemsChars items)
  | object fields => objectChars (fieldsChars fields)

/-- The texts of the items of a list. -/
def itemsChars : List Json → List (List Char)
  | [] => []
  | item :: rest => chars item :: itemsChars rest

/-- The texts of the fields of an object. -/
def fieldsChars : List (String × Json) → List (List Char)
  | [] => []
  | (name, value) :: rest => fieldChars name (chars value) :: fieldsChars rest

end

/-- The compact text of a value. -/
def text (json : Json) : String := String.ofList json.chars

end DocumentBase.Json
