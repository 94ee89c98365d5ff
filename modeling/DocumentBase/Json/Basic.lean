import DocumentBase.Number.Rounding

/-!
# DocumentBase.Json.Basic

Plain JSON values, as other programs exchange them.  A numeral without point and exponent that fits
64 bits stays an exact integer; every other numeral is a finite double.  Objects hold their fields
in ascending order of the names.
-/

namespace DocumentBase

/-- A number of JSON: a 64-bit integer, signed or not, or a finite double. -/
inductive Numeral where
  | integer (n : Int) (fits : -0x8000000000000000 ≤ n ∧ n < 0x10000000000000000)
  | double (x : Finite)
deriving DecidableEq

/-- The double nearest to a numeral. -/
def Numeral.toNumber : Numeral → Number
  | integer n _ => Number.ofInt n
  | double x => .finite x

/-- A value that holds no other values. -/
inductive Json.Scalar where
  | null
  | bool (b : Bool)
  | number (n : Numeral)
  | string (s : String)
deriving DecidableEq

/-- A JSON value. -/
inductive Json where
  | null
  | bool (b : Bool)
  | number (n : Numeral)
  | string (s : String)
  | array (items : List Json)
  | object (fields : List (String × Json))

instance : Inhabited Json := ⟨.null⟩

end DocumentBase
