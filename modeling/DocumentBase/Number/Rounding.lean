import DocumentBase.Number.Basic

/-!
# DocumentBase.Number.Rounding

Rounding decimals to numbers: the nearest step to an exact quotient, ties going to the even step.
The comparison is made on ticks in exact natural arithmetic, so the rounding is correct for every
decimal, however long.
-/

namespace DocumentBase

namespace Step

/-- The step nearest to `num / den`; of two equally near the even one. -/
def nearest (num den : Nat) : Nat :=
  let scaled := num * ticksInOne
  let low := ofTicks (scaled / den)
  let midpoint := (ticks low + ticks (low + 1)) * den
  if 2 * scaled < midpoint then low
  else if midpoint < 2 * scaled then low + 1
  else if low % 2 = 0 then low
  else low + 1

end Step

/-- A power of ten. -/
def powerOfTen (exponent : Nat) : Nat := Nat.pow 10 exponent

/-- A non-negative decimal: its digits, read as a natural number, times a power of ten. -/
structure Decimal where
  digits : Nat
  exponent : Int
deriving DecidableEq

namespace Decimal

/-- The step nearest to a decimal.  Beyond the two bounds the exponent alone decides: a decimal of
10^401 or more is past every finite magnitude, one below 10^-400 is nearest to zero. -/
def step (d : Decimal) : Nat :=
  if d.digits = 0 then 0
  else if 400 < d.exponent then Step.count
  else if d.exponent < -(400 + d.digits.log2 : Int) then 0
  else Step.nearest (d.digits * powerOfTen d.exponent.toNat) (powerOfTen (-d.exponent).toNat)

/-- The number nearest to a signed decimal; past the last finite step it is infinite. -/
def toNumber (d : Decimal) (negative : Bool) : Number :=
  if h : d.step < Step.count then .finite ⟨negative, d.step, h⟩ else .infinite negative

end Decimal

namespace Number

/-- The number nearest to an integer. -/
def ofInt (n : Int) : Number := Decimal.toNumber ⟨n.natAbs, 0⟩ (n < 0)

end Number
end DocumentBase
