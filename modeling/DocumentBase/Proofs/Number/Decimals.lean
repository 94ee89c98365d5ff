import DocumentBase.Json.Numeral
import DocumentBase.Number.Lemmas

/-!
# DocumentBase.Proofs.Number.Decimals

Decimals as quotients.  A decimal can also be written with more digits and a smaller exponent, and
the step nearest to it stays the same (`step_shift`).  The bounds beyond which the exponent alone
decides what the step is do not disturb this, for they decide as the quotient does
(`step_eq_rounded`).  An integer of 64 bits is nearest to a finite number, for a quotient is not
rounded past any magnitude (`Number.isFinite_ofInt`).

The shortest decimal of a step may end in zeros, but it has few digits in front of them
(`significant_shortest`), fewer than a reader of numbers keeps.
-/

namespace DocumentBase

/-! ## Powers -/

/- The exponents run to some thousands.  So the powers stay powers, and what is said of them goes by
the laws of exponents. -/

@[simp] theorem powerOfTen_zero : powerOfTen 0 = 1 := rfl

theorem powerOfTen_pos (n : Nat) : 0 < powerOfTen n := Nat.pow_pos (by decide)

theorem powerOfTen_add (m n : Nat) : powerOfTen (m + n) = powerOfTen m * powerOfTen n :=
  Nat.pow_add 10 m n

theorem powerOfTen_mono {m n : Nat} (h : m ≤ n) : powerOfTen m ≤ powerOfTen n :=
  Nat.pow_le_pow_right (by decide) h

theorem powerOfTen_lt {m n : Nat} (h : m < n) : powerOfTen m < powerOfTen n :=
  Nat.pow_lt_pow_right (by decide) h

/-- A power of two.  The exponents in use are large, so the powers are not to be computed. -/
def powerOfTwo (exponent : Nat) : Nat := Nat.pow 2 exponent

theorem powerOfTwo_pos (n : Nat) : 0 < powerOfTwo n := Nat.two_pow_pos n

theorem powerOfTwo_add (m n : Nat) : powerOfTwo (m + n) = powerOfTwo m * powerOfTwo n :=
  Nat.pow_add 2 m n

theorem powerOfTwo_mono {m n : Nat} (h : m ≤ n) : powerOfTwo m ≤ powerOfTwo n :=
  Nat.pow_le_pow_right (by decide) h

theorem shiftLeft_eq_mul (m n : Nat) : m <<< n = m * powerOfTwo n := Nat.shiftLeft_eq m n

theorem lt_powerOfTwo (n : Nat) : n < powerOfTwo (n.log2 + 1) := Nat.lt_log2_self

/-- A decimal digit holds more than three binary ones. -/
theorem powerOfTwo_le (n : Nat) : powerOfTwo (3 * n) ≤ powerOfTen n := by
  show 2 ^ (3 * n) ≤ 10 ^ n
  rw [Nat.pow_mul]
  exact Nat.pow_le_pow_left (by decide) n

namespace Step

/-! ## Far quotients -/

/- A step is the place of a magnitude among all magnitudes, and its ticks are the magnitude itself,
as a multiple of the smallest one.  What is needed of rounding is that a quotient is not rounded
past a magnitude. -/

theorem blockSize_eq : blockSize = powerOfTwo 52 := rfl

-- From here on the kernel is not to compute a power whose exponent is a numeral.
attribute [irreducible] powerOfTwo

theorem ticksInOne_eq : ticksInOne = powerOfTwo 1074 := by
  rw [ticksInOne, tickPlaces, shiftLeft_eq_mul, Nat.one_mul]

/-- The first magnitude past the finite ones, in ticks. -/
theorem ticks_count : ticks count = powerOfTwo 2098 := by
  have last : count = 2046 * blockSize + blockSize := by unfold count; omega
  rw [last, ticks_block 2046 (Nat.le_refl _) (by omega), shiftLeft_eq_mul, blockSize_eq,
    ← powerOfTwo_add]

/-- A quotient is rounded to one of the two steps around it. -/
theorem nearest_cases (num den : Nat) :
    nearest num den = ofTicks (num * ticksInOne / den) ∨
      nearest num den = ofTicks (num * ticksInOne / den) + 1 := by
  unfold nearest
  dsimp only
  split
  · exact .inl rfl
  · split
    · exact .inr rfl
    · split
      · exact .inl rfl
      · exact .inr rfl

/-- A quotient is not rounded past a magnitude below it. -/
theorem le_nearest {num den step : Nat} (pos : 0 < den)
    (h : ticks step * den ≤ num * ticksInOne) : step ≤ nearest num den := by
  have below : ticks step ≤ num * ticksInOne / den := (Nat.le_div_iff_mul_le pos).2 h
  have above := lt_ticks_ofTicks_succ (num * ticksInOne / den)
  have low : step ≤ ofTicks (num * ticksInOne / den) := by
    refine Nat.le_of_not_lt fun less => ?_
    have : ticks (ofTicks (num * ticksInOne / den) + 1) ≤ ticks step := ticks_le_ticks less
    omega
  rcases nearest_cases num den with rounded | rounded <;> omega

/-- A quotient is not rounded past a magnitude above it. -/
theorem nearest_le {num den step : Nat} (pos : 0 < den)
    (h : num * ticksInOne ≤ ticks step * den) : nearest num den ≤ step := by
  have below : ticks (ofTicks (num * ticksInOne / den)) ≤ ticks step :=
    Nat.le_trans (ticks_ofTicks_le _) (Nat.div_le_of_le_mul (by rwa [Nat.mul_comm den]))
  rcases Nat.lt_trichotomy (ofTicks (num * ticksInOne / den)) step with less | same | more
  · rcases nearest_cases num den with rounded | rounded <;> omega
  · -- A quotient that does not reach past the magnitude is below the midpoint behind it.
    have midpoint : 2 * (num * ticksInOne) < (ticks step + ticks (step + 1)) * den :=
      calc 2 * (num * ticksInOne) ≤ (ticks step + ticks step) * den := by
            rw [← Nat.two_mul, Nat.mul_assoc]
            exact Nat.mul_le_mul_left 2 h
        _ < (ticks step + ticks (step + 1)) * den :=
            Nat.mul_lt_mul_of_pos_right (Nat.add_lt_add_left (ticks_lt_ticks_succ step) _) pos
    unfold nearest
    dsimp only
    rw [same]
    exact Nat.le_of_eq (if_pos midpoint)
  · exact absurd below (Nat.not_le.2 (ticks_lt_ticks more))

/-- A whole number of 64 bits is far below the first magnitude past the finite ones. -/
theorem nearest_one_lt_count {n : Nat} (fits : n ≤ 0x10000000000000000) : nearest n 1 < count := by
  have small : n ≤ powerOfTwo 64 := by unfold powerOfTwo; exact fits
  have past : 1086 * blockSize + blockSize < count := by decide
  refine Nat.lt_of_le_of_lt (nearest_le Nat.one_pos ?_) past
  rw [ticks_block 1086 (Nat.le_refl _) (by omega), shiftLeft_eq_mul, Nat.mul_one, blockSize_eq,
    ticksInOne_eq]
  calc n * powerOfTwo 1074 ≤ powerOfTwo 64 * powerOfTwo 1074 := Nat.mul_le_mul_right _ small
    _ = powerOfTwo 52 * powerOfTwo 1086 := by rw [← powerOfTwo_add, ← powerOfTwo_add]

/-- A quotient of less than half a tick rounds to zero. -/
theorem nearest_eq_zero {num den : Nat} (h : 2 * (num * ticksInOne) < den) :
    nearest num den = 0 := by
  have zero : ofTicks 0 = 0 := by decide
  have midpoint : (ticks 0 + ticks (0 + 1)) * den = den := by
    rw [ticks_of_le (by decide), ticks_of_le (by decide)]
    omega
  unfold nearest
  dsimp only
  rw [Nat.div_eq_of_lt (by omega), zero, midpoint, if_pos h]

end Step

namespace Decimal

/-! ## One decimal, two exponents -/

/- The step of a decimal is decided by its exponent alone where that is far out, and by a quotient
else.  The quotient does not change when zeros are moved, but the bounds on the exponent do, so they
have to be shown to decide as the quotient does. -/

theorem step_zero (exponent : Int) : (⟨0, exponent⟩ : Decimal).step = 0 := if_pos rfl

/-- The step nearest to a decimal as a quotient, whatever its exponent is. -/
def rounded (d : Decimal) : Nat :=
  Step.nearest (d.digits * powerOfTen d.exponent.toNat) (powerOfTen (-d.exponent).toNat)

/-- A decimal with a large exponent is past all finite magnitudes: a power of ten outgrows the power
of two with three times the exponent. -/
theorem count_le_rounded {d : Decimal} (nonzero : d.digits ≠ 0) (large : 400 < d.exponent) :
    Step.count ≤ d.rounded := by
  have whole : (-d.exponent).toNat = 0 := by omega
  refine Step.le_nearest (powerOfTen_pos _) ?_
  rw [Step.ticks_count, Step.ticksInOne_eq, whole, powerOfTen_zero, Nat.mul_one]
  calc powerOfTwo 2098 = powerOfTwo 1024 * powerOfTwo 1074 := by rw [← powerOfTwo_add]
    _ ≤ powerOfTwo (3 * d.exponent.toNat) * powerOfTwo 1074 :=
        Nat.mul_le_mul_right _ (powerOfTwo_mono (by omega))
    _ ≤ d.digits * powerOfTen d.exponent.toNat * powerOfTwo 1074 :=
        Nat.mul_le_mul_right _ (Nat.le_trans (powerOfTwo_le _)
          (Nat.le_mul_of_pos_left _ (Nat.pos_of_ne_zero nonzero)))

/-- A decimal with an exponent that is small for its digits is less than half a tick. -/
theorem rounded_eq_zero {d : Decimal} (small : d.exponent < -(400 + d.digits.log2 : Int)) :
    d.rounded = 0 := by
  have whole : d.exponent.toNat = 0 := by omega
  have two : powerOfTwo 1 = 2 := by unfold powerOfTwo; rfl
  refine Step.nearest_eq_zero ?_
  rw [Step.ticksInOne_eq, whole, powerOfTen_zero, Nat.mul_one]
  calc 2 * (d.digits * powerOfTwo 1074)
      < 2 * (powerOfTwo (d.digits.log2 + 1) * powerOfTwo 1074) :=
        Nat.mul_lt_mul_of_pos_left (Nat.mul_lt_mul_of_pos_right (lt_powerOfTwo _)
          (powerOfTwo_pos 1074)) (by decide)
    _ = powerOfTwo (1 + (d.digits.log2 + 1 + 1074)) := by
        rw [powerOfTwo_add 1, powerOfTwo_add (d.digits.log2 + 1), two]
    _ ≤ powerOfTwo (3 * (-d.exponent).toNat) := powerOfTwo_mono (by omega)
    _ ≤ powerOfTen (-d.exponent).toNat := powerOfTwo_le _

/-- The bounds on the exponent decide as the quotient does. -/
theorem step_eq_rounded {d : Decimal} (nonzero : d.digits ≠ 0)
    (finite : d.step < Step.count ∨ d.rounded < Step.count) : d.step = d.rounded := by
  unfold step at finite ⊢
  rw [if_neg nonzero] at finite ⊢
  by_cases large : 400 < d.exponent
  · rw [if_pos large] at finite
    have := count_le_rounded nonzero large
    omega
  · rw [if_neg large]
    by_cases small : d.exponent < -(400 + d.digits.log2 : Int)
    · rw [if_pos small, rounded_eq_zero small]
    · rw [if_neg small]
      rfl

/-- Zeros that are moved between digits and exponent leave the quotient as it is. -/
theorem rounded_shift (n places : Nat) (exponent : Int) :
    (⟨n * powerOfTen places, exponent⟩ : Decimal).rounded
      = (⟨n, exponent + places⟩ : Decimal).rounded := by
  unfold rounded
  dsimp only
  by_cases whole : 0 ≤ exponent
  · -- The zeros are factors of the numerator, on either side.
    have sum : (exponent + places).toNat = places + exponent.toNat := by omega
    have front : (-exponent).toNat = 0 := by omega
    have behind : (-(exponent + places)).toNat = 0 := by omega
    rw [sum, front, behind, powerOfTen_add, Nat.mul_assoc]
  · have front : exponent.toNat = 0 := by omega
    rw [front, powerOfTen_zero, Nat.mul_one]
    -- Some of them cancel against the denominator, or all do.
    by_cases behind : 0 ≤ exponent + places
    · have sum : places = (exponent + places).toNat + (-exponent).toNat := by omega
      have none_left : (-(exponent + places)).toNat = 0 := by omega
      rw [none_left, ← Step.nearest_mul_mul _ (powerOfTen 0) (powerOfTen_pos (-exponent).toNat),
        Nat.mul_assoc, ← powerOfTen_add, ← sum, ← powerOfTen_add, Nat.zero_add]
    · have sum : (-exponent).toNat = (-(exponent + places)).toNat + places := by omega
      have none_left : (exponent + places).toNat = 0 := by omega
      rw [none_left, sum, powerOfTen_add, Step.nearest_mul_mul _ _ (powerOfTen_pos places),
        powerOfTen_zero, Nat.mul_one]

/-- Moving zeros between digits and exponent does not change what a decimal is nearest to. -/
theorem step_shift {n : Nat} (nonzero : n ≠ 0) (places : Nat) (exponent : Int)
    (finite : (⟨n * powerOfTen places, exponent⟩ : Decimal).step < Step.count
      ∨ (⟨n, exponent + places⟩ : Decimal).step < Step.count) :
    (⟨n * powerOfTen places, exponent⟩ : Decimal).step
      = (⟨n, exponent + places⟩ : Decimal).step := by
  have shifted := rounded_shift n places exponent
  have nonzero' : n * powerOfTen places ≠ 0 :=
    Nat.mul_ne_zero nonzero (Nat.ne_of_gt (powerOfTen_pos places))
  rcases finite with finite | finite
  · have same := step_eq_rounded (d := ⟨n * powerOfTen places, exponent⟩) nonzero' (.inl finite)
    rw [same, shifted] at finite ⊢
    exact (step_eq_rounded (d := ⟨n, exponent + places⟩) nonzero (.inr finite)).symm
  · have same := step_eq_rounded (d := ⟨n, exponent + places⟩) nonzero (.inl finite)
    rw [same, ← shifted] at finite ⊢
    exact step_eq_rounded (d := ⟨n * powerOfTen places, exponent⟩) nonzero' (.inr finite)

end Decimal

/-! ## Integers -/

/-- The number nearest to an integer of 64 bits is finite. -/
theorem Number.isFinite_ofInt {n : Int} (fits : n.natAbs ≤ 0x10000000000000000) :
    (ofInt n).isFinite := by
  have step : (⟨n.natAbs, 0⟩ : Decimal).step < Step.count := by
    by_cases zero : n.natAbs = 0
    · rw [zero, Decimal.step_zero]
      exact Step.count_pos
    · have whole : (⟨n.natAbs, 0⟩ : Decimal).rounded = Step.nearest n.natAbs 1 := by
        rw [Decimal.rounded, Int.toNat_zero, powerOfTen_zero, Nat.mul_one]
        rfl
      have finite : (⟨n.natAbs, 0⟩ : Decimal).rounded < Step.count := by
        rw [whole]
        exact Step.nearest_one_lt_count fits
      rw [Decimal.step_eq_rounded zero (.inr finite)]
      exact finite
  rw [ofInt, Decimal.toNumber, dif_pos step]
  rfl

namespace Step

/-! ## The digits of a shortest decimal -/

/- A shortest decimal has been found on a grid, or it is the exact one.  The grids that are searched
are coarse, so there are few digits on them.  The exact decimal has a power of five among its
digits, and this is traded for powers of two and of ten until few digits are left. -/

/-- A finite magnitude is a number of at most 53 binary digits, doubled some times. -/
theorem ticks_eq_shift {step : Nat} (finite : step < count) :
    ∃ m block, m < powerOfTwo 53 ∧ block < 2046 ∧ ticks step = m * powerOfTwo block := by
  have doubled : powerOfTwo 53 = 2 * blockSize := by unfold powerOfTwo; rfl
  rcases eq_block step with small | ⟨block, m, low, high, rfl⟩
  · refine ⟨step, 0, by omega, by omega, ?_⟩
    rw [ticks_of_le (by omega), ← shiftLeft_eq_mul, Nat.shiftLeft_zero]
  · refine ⟨m, block, by omega, ?_, ?_⟩
    · have : block * blockSize < 2046 * blockSize := by unfold count at finite; omega
      exact Nat.lt_of_mul_lt_mul_right this
    · rw [ticks_block block low (by omega), shiftLeft_eq_mul]

theorem five_pow_add (m n : Nat) : Nat.pow 5 (m + n) = Nat.pow 5 m * Nat.pow 5 n :=
  Nat.pow_add 5 m n

theorem five_pow_split {m n : Nat} (h : m ≤ n) :
    Nat.pow 5 n = Nat.pow 5 (n - m) * Nat.pow 5 m := by
  rw [← five_pow_add, Nat.sub_add_cancel h]

/-- Some fives can be given up for twos, 237 for 102. -/
theorem five_pow_le_of_le {n few times : Nat} (h : n ≤ 102 * times + few) :
    Nat.pow 5 n ≤ powerOfTwo (237 * times) * Nat.pow 5 few := by
  have traded : 5 ^ (102 * times) ≤ 2 ^ (237 * times) := by
    rw [Nat.pow_mul, Nat.pow_mul]
    exact Nat.pow_le_pow_left (by decide) times
  unfold powerOfTwo
  calc Nat.pow 5 n ≤ Nat.pow 5 (102 * times + few) := Nat.pow_le_pow_right (by decide) h
    _ = Nat.pow 5 (102 * times) * Nat.pow 5 few := five_pow_add _ _
    _ ≤ Nat.pow 2 (237 * times) * Nat.pow 5 few := Nat.mul_le_mul_right _ traded

/-- Of every ten one factor is a two and one a five. -/
theorem powerOfTen_eq_mul (n : Nat) : powerOfTen n = powerOfTwo n * Nat.pow 5 n := by
  rw [powerOfTen_eq, shiftLeft_eq_mul, Nat.one_mul, Nat.mul_comm]

/-- In the exact decimal of a magnitude each doubling turns a factor of five into one of ten. -/
theorem significant_exactly {step : Nat} (finite : step < count) :
    ∃ n places, (exactly step).digits = n * powerOfTen places
      ∧ n < powerOfTen Decimal.digitLimit := by
  obtain ⟨m, block, m_lt, block_lt, ticks_eq⟩ := ticks_eq_shift finite
  have limit : Decimal.digitLimit = 768 := rfl
  have tick : tickPlaces = 1074 := rfl
  rw [digits_exactly, ticks_eq]
  -- Up to 1074 doublings meet a factor of five each, and those behind them are left as factors.
  by_cases few : block ≤ tickPlaces
  · refine ⟨m * Nat.pow 5 (tickPlaces - block), block, ?_, ?_⟩
    · rw [five_pow_split few, powerOfTen_eq_mul]
      ac_rfl
    · have fives : Nat.pow 5 (tickPlaces - block)
          ≤ powerOfTwo (237 * 3) * Nat.pow 5 Decimal.digitLimit :=
        five_pow_le_of_le (by omega)
      calc m * Nat.pow 5 (tickPlaces - block)
          < powerOfTwo 53 * (powerOfTwo (237 * 3) * Nat.pow 5 Decimal.digitLimit) :=
            Nat.mul_lt_mul_of_lt_of_le m_lt fives
              (Nat.mul_pos (powerOfTwo_pos _) (five_pow_pos _))
        _ = powerOfTwo (53 + 237 * 3) * Nat.pow 5 Decimal.digitLimit := by
            rw [← Nat.mul_assoc, ← powerOfTwo_add]
        _ ≤ powerOfTwo Decimal.digitLimit * Nat.pow 5 Decimal.digitLimit :=
            Nat.mul_le_mul_right _ (powerOfTwo_mono (by omega))
        _ = powerOfTen Decimal.digitLimit := by rw [powerOfTen_eq_mul]
  · refine ⟨m * powerOfTwo (block - tickPlaces), tickPlaces, ?_, ?_⟩
    · have split : powerOfTwo block = powerOfTwo (block - tickPlaces) * powerOfTwo tickPlaces := by
        rw [← powerOfTwo_add, Nat.sub_add_cancel (by omega)]
      rw [split, powerOfTen_eq_mul, ← Nat.mul_assoc, Nat.mul_assoc _ (powerOfTwo tickPlaces)]
    · calc m * powerOfTwo (block - tickPlaces)
          < powerOfTwo 53 * powerOfTwo (block - tickPlaces) :=
            Nat.mul_lt_mul_of_pos_right m_lt (powerOfTwo_pos _)
        _ = powerOfTwo (53 + (block - tickPlaces)) := (powerOfTwo_add _ _).symm
        _ ≤ powerOfTwo (3 * Decimal.digitLimit) := powerOfTwo_mono (by omega)
        _ ≤ powerOfTen Decimal.digitLimit := powerOfTwo_le _

/-- What is found on a grid is the neighbour below the magnitude or the one above. -/
theorem digits_onGrid? {tie : TieRule} {step : Nat} {exponent : Int} {d : Decimal}
    (h : onGrid? tie step exponent = some d) :
    d.digits ≤ ticks step * powerOfTen (-exponent).toNat
      / (ticksInOne * powerOfTen exponent.toNat) + 1 := by
  simp only [onGrid?] at h
  split at h
  · split at h
    · split at h
      · cases h
        exact Nat.le_succ _
      · split at h
        · cases h
          exact Nat.le_refl _
        · split at h
          · cases h
            exact Nat.le_succ _
          · cases h
            exact Nat.le_refl _
    · cases h
      exact Nat.le_succ _
  · split at h
    · cases h
      exact Nat.le_refl _
    · cases h

/-- The grids that are searched are not fine enough for many digits. -/
theorem digits_grids {tie : TieRule} {step : Nat} {exponent : Int} {d : Decimal}
    (finite : step < count) (coarse : -343 ≤ exponent)
    (h : onGrid? tie step exponent = some d) : d.digits < powerOfTen Decimal.digitLimit := by
  have neighbour := digits_onGrid? h
  have below : ticks step * powerOfTen (-exponent).toNat
      / (ticksInOne * powerOfTen exponent.toNat) < powerOfTen 685 := by
    rw [Nat.div_lt_iff_lt_mul (Nat.mul_pos ticksInOne_pos (powerOfTen_pos _))]
    calc ticks step * powerOfTen (-exponent).toNat
        < powerOfTwo 2098 * powerOfTen 343 :=
          Nat.mul_lt_mul_of_lt_of_le (ticks_count ▸ ticks_lt_ticks finite)
            (powerOfTen_mono (by omega)) (powerOfTen_pos _)
      _ = powerOfTwo 1024 * powerOfTen 343 * powerOfTwo 1074 := by
          rw [Nat.mul_right_comm, ← powerOfTwo_add]
      _ ≤ powerOfTen 342 * powerOfTen 343 * powerOfTwo 1074 :=
          Nat.mul_le_mul_right _ (Nat.mul_le_mul_right _
            (Nat.le_trans (powerOfTwo_mono (by omega)) (powerOfTwo_le 342)))
      _ = powerOfTen 685 * ticksInOne := by rw [← powerOfTen_add, ticksInOne_eq]
      _ ≤ powerOfTen 685 * (ticksInOne * powerOfTen exponent.toNat) :=
          Nat.mul_le_mul_left _ (Nat.le_mul_of_pos_right _ (powerOfTen_pos _))
  have more : powerOfTen 685 < powerOfTen Decimal.digitLimit := powerOfTen_lt (by decide)
  omega

/-- Few digits of a shortest decimal stand in front of the zeros at its end. -/
theorem significant_shortest {tie : TieRule} {step : Nat} {d : Decimal} (finite : step < count)
    (h : shortest tie step = d) :
    ∃ n places, d.digits = n * powerOfTen places ∧ n < powerOfTen Decimal.digitLimit := by
  unfold shortest at h
  split at h
  · subst h
    exact ⟨0, 0, by rw [Nat.zero_mul], powerOfTen_pos _⟩
  · dsimp only at h
    cases found : ((List.range 22).map fun (finer : Nat) =>
        decimalCeiling step - finer).findSome? (onGrid? tie step) with
    | none =>
      rw [found, Option.getD_none] at h
      subst h
      exact significant_exactly finite
    | some hit =>
      obtain ⟨exponent, searched, on_grid⟩ := List.exists_of_findSome?_eq_some found
      obtain ⟨finer, range, rfl⟩ := List.mem_map.1 searched
      have := List.mem_range.1 range
      rw [found, Option.getD_some] at h
      subst h
      refine ⟨hit.digits, 0, by rw [powerOfTen_zero, Nat.mul_one], ?_⟩
      exact digits_grids finite (by unfold decimalCeiling; omega) on_grid

end Step
end DocumentBase
