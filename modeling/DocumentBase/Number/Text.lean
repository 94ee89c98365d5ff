import DocumentBase.Number.Shortest

/-!
# DocumentBase.Number.Text

Number text: the fewest digits that read back, laid out positionally or with an exponent.

Two writers share the layout. *Plain* text, used for leaves, index keys and display, never has an
exponent and never a point without a reason. *JSON* text shows that the number is not an integer
type: it always has a point or an exponent.
-/

namespace DocumentBase

/-! ## Laying out a decimal -/

namespace Decimal

/-- The decimal digits of a natural number, without leading zeros. -/
def digitChars (n : Nat) : List Char := Nat.toDigits 10 n

/-- The decimal without an exponent; a point only where digits follow it. -/
def positional (d : Decimal) : List Char :=
  let digits := digitChars d.digits
  let places := (-d.exponent).toNat
  if places = 0 then
    if d.digits = 0 then digits else digits ++ List.replicate d.exponent.toNat '0'
  else if places < digits.length then
    digits.take (digits.length - places) ++ '.' :: digits.drop (digits.length - places)
  else '0' :: '.' :: (List.replicate (places - digits.length) '0' ++ digits)

/-- The exponent of the first digit. -/
def leadingExponent (d : Decimal) : Int := d.exponent + ((digitChars d.digits).length - 1 : Int)

/-- One digit before the point, and the exponent of ten with its sign. -/
def scientific (d : Decimal) : List Char :=
  let mantissa :=
    match digitChars d.digits with
    | first :: second :: rest => first :: '.' :: second :: rest
    | digits => digits
  let power := d.leadingExponent
  mantissa ++ 'e' :: (if power < 0 then '-' else '+') :: digitChars power.natAbs

end Decimal

/-! ## Writers -/

/-- What a writer of numbers decides: which of two equally near decimals it takes, which exponents
of the first digit it writes positionally, and what it appends to a whole number. -/
structure NumberStyle where
  tie : TieRule
  isPositional : Int → Bool
  wholeSuffix : List Char

namespace NumberStyle

/-- Plain text: never an exponent, whole numbers without a point, ties away from zero. -/
def plain : NumberStyle := ⟨.up, fun _ => true, []⟩

/-- JSON text: positional from 10^-5 up to 10^16, whole numbers end in `.0`, ties to even. -/
def json : NumberStyle := ⟨.even, fun power => -5 ≤ power && power < 16, ['.', '0']⟩

end NumberStyle

namespace Finite

/-- The text of a finite number in a given style. -/
def write (style : NumberStyle) (x : Finite) : List Char :=
  let d := Step.shortest style.tie x.step
  let unsigned :=
    if style.isPositional d.leadingExponent then
      if d.exponent < 0 then d.positional else d.positional ++ style.wholeSuffix
    else d.scientific
  if x.negative then '-' :: unsigned else unsigned

end Finite

namespace Number

/-- Plain text of a number, NaN and the infinities included. -/
def text : Number → String
  | nan => "NaN"
  | infinite negative => if negative then "-inf" else "inf"
  | finite x => String.ofList (x.write .plain)

end Number
end DocumentBase
