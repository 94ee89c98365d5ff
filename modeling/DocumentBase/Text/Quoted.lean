import DocumentBase.Text.Visible

/-!
# DocumentBase.Text.Quoted

Quoting a text inside a message, so that its ends and every invisible character can be seen.
-/

namespace DocumentBase.Text

/-- The quoted form of one character: a short escape, the character itself if it is visible, or
its code point in hexadecimal. -/
def quoteChar (c : Char) : List Char :=
  if c = '\x00' then ['\\', '0']
  else if c = '\t' then ['\\', 't']
  else if c = '\n' then ['\\', 'n']
  else if c = '\r' then ['\\', 'r']
  else if c = '"' then ['\\', '"']
  else if c = '\\' then ['\\', '\\']
  else if isVisible c then [c]
  else ['\\', 'u', '\x7b'] ++ Nat.toDigits 16 c.toNat ++ ['\x7d']

/-- The text between double quotes, each character in its quoted form. -/
def quoted (text : String) : String :=
  String.ofList ('"' :: text.toList.flatMap quoteChar ++ ['"'])

end DocumentBase.Text
