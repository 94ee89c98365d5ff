import DocumentBase.Number.Rounding

/-!
# DocumentBase.Number.Shortest

The decimal with the fewest digits that reads back to a given finite magnitude.

The search walks from coarse decimal grids to fine ones.  On each grid the magnitude has two
neighbours; the first grid on which one of them rounds back to the magnitude wins, and of two that
do the nearer is taken.  The test is the reader's own rounding, so what is chosen reads back by
construction.
-/

namespace DocumentBase

/-- Which of two equally near decimals a writer takes. -/
inductive TieRule where
  | even
  | up
deriving DecidableEq

namespace Step

/-- The neighbour of the step's magnitude among the decimals of one exponent that rounds back to the
step, if there is one. -/
def onGrid? (tie : TieRule) (step : Nat) (exponent : Int) : Option Decimal :=
  let num := ticks step * powerOfTen (-exponent).toNat
  let den := ticksInOne * powerOfTen exponent.toNat
  let low := num / den
  let below : Decimal := ⟨low, exponent⟩
  let above : Decimal := ⟨low + 1, exponent⟩
  if below.step = step then
    if above.step = step then
      if 2 * (num % den) < den then some below
      else if den < 2 * (num % den) then some above
      else if tie = .even ∧ low % 2 = 0 then some below
      else some above
    else some below
  else if above.step = step then some above
  else none

/-- The magnitude written out exactly: a tick has as many decimal places as it has binary ones. -/
def exactly (step : Nat) : Decimal :=
  ⟨ticks step * powerOfTen tickPlaces / ticksInOne, -tickPlaces⟩

/-- An exponent of ten that the step's magnitude does not reach. -/
def decimalCeiling (step : Nat) : Int :=
  ((ticks step).log2 - 1073 : Int) * 30103 / 100000 + 2

/-- The fewest digits that read back to the step.  Seventeen digits always do, so the grids searched
are enough: they start at most three places above the first digit.  If none had a hit, the magnitude
would be written out exactly. -/
def shortest (tie : TieRule) (step : Nat) : Decimal :=
  if step = 0 then ⟨0, 0⟩
  else
    let grids := (List.range 22).map fun (finer : Nat) => decimalCeiling step - finer
    (grids.findSome? (onGrid? tie step)).getD (exactly step)

end Step
end DocumentBase
