/-!
# DocumentBase.DocId

Document identifiers.  A fresh identifier is a version 4 UUID, made of random bits that the caller
supplies, in lowercase and with hyphens; any text can be asked for.
-/

namespace DocumentBase

/-- The identifier of a document. -/
structure DocId where
  text : String
deriving DecidableEq

namespace DocId

/-- The hexadecimal digit at a place, the lowest being place 0. -/
def hexDigitAt (bits place : Nat) : Char := Nat.digitChar ((bits >>> (4 * place)) % 16)

/-- The digits at `count` places from `first` on. -/
def hexDigits (bits first count : Nat) : List Char :=
  (List.range count).map fun i => hexDigitAt bits (first + i)

/-- The version 4 UUID of 122 random bits: thirty free digits, and two free bits in the digit that
tells the variant. -/
def ofRandom (bits : Nat) : DocId :=
  let variant := Nat.digitChar (8 + (bits >>> 120) % 4)
  ⟨String.ofList (hexDigits bits 0 8 ++ '-' :: hexDigits bits 8 4
    ++ '-' :: '4' :: hexDigits bits 12 3 ++ '-' :: variant :: hexDigits bits 15 3
    ++ '-' :: hexDigits bits 18 12)⟩

/-- Whether a character may stand at a place of a version 4 UUID. -/
def isUuidChar (c : Char) (place : Nat) : Bool :=
  if place = 8 ∨ place = 13 ∨ place = 18 ∨ place = 23 then c == '-'
  else if place = 14 then c == '4'
  else if place = 19 then c == '8' || c == '9' || c == 'a' || c == 'b'
  else c.isDigit || ('a' ≤ c && c ≤ 'f')

/-- Whether the text is a version 4 UUID in lowercase with hyphens. -/
def isVersion4 (id : DocId) : Bool :=
  let chars := id.text.toList
  chars.length == 36 && chars.zipIdx.all fun (c, place) => isUuidChar c place

end DocId
end DocumentBase
