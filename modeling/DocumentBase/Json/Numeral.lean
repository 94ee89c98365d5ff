import DocumentBase.Json.Reader
import DocumentBase.Number.Digits

/-!
# DocumentBase.Json.Numeral

Readers of JSON numbers.  A number is read into its parts: a sign, the digits before the point, the
digits after it, and an exponent.  A number of the first two parts alone is an integer if it fits.
Every other number is the double nearest to its decimal, and a decimal keeps a bounded count of
significant digits.  A point midway between two doubles has fewer digits than that, so the digits
past the bound never decide on which side of such a point a number lies.  They can decide only
whether the number is that point itself, and a decimal cut at the bound always lies above it.
-/

namespace DocumentBase

/-! ## Digits -/

namespace Digits

/-- The digits without the zeros at their front. -/
def withoutLeadingZeros (digits : List Nat) : List Nat := digits.dropWhile (· == 0)

/-- The digits without the zeros at their end. -/
def withoutTrailingZeros (digits : List Nat) : List Nat :=
  (withoutLeadingZeros digits.reverse).reverse

end Digits

/-- The count of significant digits that a decimal keeps. -/
def Decimal.digitLimit : Nat := 768

/-- The decimal of a run of digits, the last of which counts `10 ^ exponent`.  Of a run longer than
the limit only the digits up to it are kept, with a single one behind them in place of all others.
That one stands for the others even if they are zeros: a long decimal lies above the digits kept,
and below the next decimal of as many digits. -/
def Decimal.ofDigits (digits : List Nat) (exponent : Int) : Decimal :=
  let significant := Digits.withoutLeadingZeros digits
  if digitLimit < significant.length then
    ⟨10 * Digits.value (significant.take digitLimit) + 1,
      exponent + significant.length - (digitLimit + 1)⟩
  else ⟨Digits.value significant, exponent⟩

namespace Json.Reader

/-! ## Parts -/

/-- The longest run of digits, possibly empty. -/
def digits : Reader (List Nat) where
  run text := .ok (Digits.span Digits.ofByte? text)
  length_le {text value rest} h := by
    have : (Digits.span Digits.ofByte? text).2 = rest := by rw [Except.ok.inj h]
    exact this ▸ Digits.length_span_rest_le _ _

/-- A run of digits that has to be there.  What stands in their place is no number; a text that
ends there is refused for the given reason. -/
def someDigits (ended : DecodeError) : Reader (List Nat) := do
  match ← digits with
  | [] =>
    match ← peek with
    | none => fail ended
    | some _ => fail .invalidNumber
  | ds => pure ds

/-- The digits before the point.  Only a lone zero may begin with a zero. -/
def wholePart (ended : DecodeError) : Reader (List Nat) := do
  match ← someDigits ended with
  | 0 :: _ :: _ => fail .invalidNumber
  | ds => pure ds

/-- The digits after the point, if there is a point. -/
def fractionPart (ended : DecodeError) : Reader (Option (List Nat)) := do
  if (← peek) = some Ascii.point then
    advance
    some <$> someDigits ended
  else pure none

/-- The exponent, if there is one. -/
def exponentPart (ended : DecodeError) : Reader (Option Int) := do
  if (← peek) = some Ascii.lowerE ∨ (← peek) = some Ascii.upperE then
    advance
    let sign ← peek
    if sign = some Ascii.minus ∨ sign = some Ascii.plus then advance
    let n : Int := Digits.value (← someDigits ended)
    pure (some (if sign = some Ascii.minus then -n else n))
  else pure none

/-- The parts of a number. -/
structure NumberParts where
  negative : Bool
  whole : List Nat
  fraction : Option (List Nat)
  exponent : Option Int

/-- The parts of a number, from its sign or first digit on. -/
def numberParts (ended : DecodeError) : Reader NumberParts := do
  let negative := (← peek) = some Ascii.minus
  if negative then advance
  let whole ← wholePart ended
  let fraction ← fractionPart ended
  let exponent ← exponentPart ended
  pure ⟨negative, whole, fraction, exponent⟩

/-- The decimal that the parts of a number write, apart from its sign.  Zeros that end the fraction
are no digits of the number; zeros that end the whole part are. -/
def NumberParts.decimal (parts : NumberParts) : Decimal :=
  let places := Digits.withoutTrailingZeros (parts.fraction.getD [])
  Decimal.ofDigits (parts.whole ++ places) (parts.exponent.getD 0 - places.length)

/-! ## Numbers -/

/-- A decimal as a numeral; one that is nearest to infinity has none. -/
def doubleNumeral (negative : Bool) (d : Decimal) : Reader Numeral :=
  match d.toNumber negative with
  | .finite x => pure (.double x)
  | _ => fail .numberOutOfRange

/-- What a number without point and exponent stands for: an integer if it fits, but negative zero
is a double, for no integer keeps its sign. -/
def wholeNumeral (negative : Bool) (magnitude : Nat) : Reader Numeral :=
  if negative ∧ magnitude = 0 then pure (.double (.zero true))
  else
    let n : Int := if negative then -magnitude else magnitude
    if fits : -0x8000000000000000 ≤ n ∧ n < 0x10000000000000000 then pure (.integer n fits)
    else doubleNumeral negative ⟨magnitude, 0⟩

/-- The numeral that the parts of a number write. -/
def numeral (parts : NumberParts) : Reader Numeral :=
  match parts.fraction, parts.exponent with
  | none, none => wholeNumeral parts.negative (Digits.value parts.whole)
  | _, _ => doubleNumeral parts.negative parts.decimal

/-- A number, from its sign or first digit on. -/
def number : Reader Numeral := do
  numeral (← numberParts (.endOfText .value))

end Json.Reader
end DocumentBase
