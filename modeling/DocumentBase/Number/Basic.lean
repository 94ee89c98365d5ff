/-!
# DocumentBase.Number.Basic

The numbers a document holds: the values of IEEE 754 double precision.

A finite number is a sign and a *step*: the position of its magnitude among all finite
magnitudes, counted from zero.  Steps are in bijection with magnitudes and keep their order, so
comparing two numbers is comparing integers, and two numbers are equal as data exactly when they
have the same bits (all NaNs being one number).

The magnitude itself is counted in *ticks* of 2^-1074, the least positive magnitude: every finite
number is a whole number of ticks, so nothing in this theory needs fractions.
-/

namespace DocumentBase

/-! ## Steps and ticks -/

namespace Step

/-- How many steps a block has: 2^52. -/
def blockSize : Nat := 0x10000000000000

/-- How many steps a finite magnitude can have; the first step past them stands for infinity. -/
def count : Nat := 2047 * blockSize

theorem count_pos : 0 < count := by decide

/-- How often one has to be halved to come to a tick, which therefore has as many decimal places. -/
def tickPlaces : Nat := 1074

/-- How many ticks make one. -/
def ticksInOne : Nat := 1 <<< tickPlaces

/-- How often the gap between neighbours has doubled at a step.  It doubles from block to block,
except that the first two blocks share the smallest gap, a tick. -/
def doublings (step : Nat) : Nat := step / blockSize - 1

/-- The magnitude of a step, in ticks. -/
def ticks (step : Nat) : Nat := (step - doublings step * blockSize) <<< doublings step

/-- The last step whose magnitude is at most the given number of ticks.  The leading 53 binary
digits tell the place in the block, and how many digits follow them tells the block. -/
def ofTicks (ticks : Nat) : Nat :=
  (ticks.log2 - 52) * blockSize + (ticks >>> (ticks.log2 - 52))

end Step

/-! ## Numbers -/

/-- A finite double: zero keeps its sign. -/
structure Finite where
  negative : Bool
  step : Nat
  step_lt : step < Step.count
deriving DecidableEq

/-- A double-precision number. -/
inductive Number where
  | nan
  | infinite (negative : Bool)
  | finite (value : Finite)
deriving DecidableEq

namespace Finite

/-- Zero, with a sign. -/
def zero (negative : Bool) : Finite := ⟨negative, 0, Step.count_pos⟩

instance : Inhabited Finite := ⟨zero false⟩

/-- Place on the number line, in steps.  The two zeros share a place. -/
def rank (x : Finite) : Int := if x.negative then -(x.step : Int) else x.step

end Finite

namespace Number

instance : Inhabited Number := ⟨finite default⟩

/-- Whether the number is neither NaN nor infinite. -/
def isFinite : Number → Bool
  | finite _ => true
  | _ => false

/-- Place on the number line, in steps; NaN has none. -/
def rank? : Number → Option Int
  | nan => none
  | infinite negative => some (if negative then -(Step.count : Int) else Step.count)
  | finite x => some x.rank

/-- Numeric order: false when either side is NaN. -/
def lt (x y : Number) : Bool :=
  match x.rank?, y.rank? with
  | some i, some j => i < j
  | _, _ => false

/-- Numeric equality: the zeros are equal, NaN equals nothing. -/
def eq (x y : Number) : Bool :=
  match x.rank?, y.rank? with
  | some i, some j => i == j
  | _, _ => false

end Number
end DocumentBase
