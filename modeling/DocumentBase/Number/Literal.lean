import DocumentBase.Number.Digits
import DocumentBase.Number.Rounding

/-!
# DocumentBase.Number.Literal

Reading a number from a literal: the text on the right of a comparison, or a string leaf that is
compared as a number.  The whole text must be a number; nothing around it is skipped.

    literal  := sign?  (decimal | "inf" | "infinity" | "nan")     (names in any letter case)
    decimal  := digits "."? digits? exponent? | "." digits exponent?
    exponent := ("e" | "E") sign? digits
-/

namespace DocumentBase

namespace Literal

/-- A leading sign, and what follows it. -/
def sign : List Char → Bool × List Char
  | '-' :: rest => (true, rest)
  | '+' :: rest => (false, rest)
  | text => (false, text)

/-- The exponent that ends a decimal: nothing, or a mark with at least one digit. -/
def exponent? : List Char → Option Int
  | [] => some 0
  | mark :: rest =>
    if mark = 'e' ∨ mark = 'E' then
      let (negative, body) := sign rest
      match Digits.span Digits.ofChar? body with
      | (d :: ds, []) =>
        let n : Int := Digits.value (d :: ds)
        some (if negative then -n else n)
      | _ => none
    else none

/-- An unsigned decimal with at least one digit before its exponent. -/
def decimal? (text : List Char) : Option Decimal :=
  let (whole, afterWhole) := Digits.span Digits.ofChar? text
  let (fraction, afterFraction) :=
    match afterWhole with
    | '.' :: rest => Digits.span Digits.ofChar? rest
    | rest => ([], rest)
  if (whole ++ fraction).isEmpty then none
  else
    (exponent? afterFraction).map fun e =>
      ⟨Digits.value (whole ++ fraction), e - fraction.length⟩

/-- A named number, in any letter case. -/
def named? (negative : Bool) (text : List Char) : Option Number :=
  let name := text.map Char.toLower
  if name = ['i', 'n', 'f'] ∨ name = ['i', 'n', 'f', 'i', 'n', 'i', 't', 'y'] then
    some (.infinite negative)
  else if name = ['n', 'a', 'n'] then some .nan
  else none

end Literal

/-- The number that a literal stands for, if it is one. -/
def Number.ofLiteral? (text : String) : Option Number :=
  let (negative, body) := Literal.sign text.toList
  match Literal.decimal? body with
  | some d => some (d.toNumber negative)
  | none => Literal.named? negative body

end DocumentBase
