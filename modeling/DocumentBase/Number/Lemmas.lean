import DocumentBase.Number.Shortest

/-!
# DocumentBase.Number.Lemmas

That rounding is exact where it can be.  Steps and ticks have the same order, so `ofTicks` finds the
step below any number of ticks; a magnitude rounds to its own step, however it is written as a
quotient; and the shortest decimal of a step reads back to it.
-/

namespace DocumentBase

namespace Step

/-! ## Steps and ticks -/

/-- Within a block of steps, and at the first step past it, the ticks grow evenly. -/
theorem ticks_block {m : Nat} (block : Nat) (low : blockSize ≤ m) (high : m ≤ 2 * blockSize) :
    ticks (block * blockSize + m) = m <<< block := by
  unfold ticks doublings
  unfold blockSize at *
  by_cases top : m = 2 * 0x10000000000000
  · have doubled : (block * 0x10000000000000 + m) / 0x10000000000000 - 1 = block + 1 := by omega
    have rest : block * 0x10000000000000 + m - (block + 1) * 0x10000000000000
        = 0x10000000000000 := by omega
    rw [doubled, rest, top, Nat.shiftLeft_eq, Nat.shiftLeft_eq, Nat.pow_succ]
    omega
  · have doubled : (block * 0x10000000000000 + m) / 0x10000000000000 - 1 = block := by omega
    have rest : block * 0x10000000000000 + m - block * 0x10000000000000 = m := by omega
    rw [doubled, rest]

/-- Up to the first doubling, steps and ticks are the same. -/
theorem ticks_of_le {step : Nat} (h : step ≤ 2 * blockSize) : ticks step = step := by
  by_cases low : blockSize ≤ step
  · simpa using ticks_block 0 low h
  · have doubled : doublings step = 0 := by unfold doublings blockSize at *; omega
    rw [ticks, doubled, Nat.shiftLeft_zero]
    omega

/-- Every step is in the block from zero on, or stands in a later one. -/
theorem eq_block (step : Nat) :
    step < blockSize ∨
      ∃ block m, blockSize ≤ m ∧ m < 2 * blockSize ∧ step = block * blockSize + m := by
  unfold blockSize
  by_cases small : step < 0x10000000000000
  · exact .inl small
  · exact .inr ⟨step / 0x10000000000000 - 1, step % 0x10000000000000 + 0x10000000000000,
      by omega, by omega, by omega⟩

/-- The next step is further up. -/
theorem ticks_lt_ticks_succ (step : Nat) : ticks step < ticks (step + 1) := by
  rcases eq_block step with small | ⟨block, m, low, high, rfl⟩
  · rw [ticks_of_le (by omega), ticks_of_le (by omega)]
    omega
  · rw [Nat.add_assoc, ticks_block block low (by omega), ticks_block block (by omega) (by omega),
      Nat.shiftLeft_eq, Nat.shiftLeft_eq]
    exact Nat.mul_lt_mul_of_pos_right (Nat.lt_succ_self m) (Nat.two_pow_pos block)

/-- Steps and their ticks have the same order. -/
theorem ticks_lt_ticks {low high : Nat} (h : low < high) : ticks low < ticks high := by
  induction high with
  | zero => omega
  | succ high ih =>
    have next := ticks_lt_ticks_succ high
    by_cases same : low = high
    · rwa [same]
    · exact Nat.lt_trans (ih (by omega)) next

theorem ticks_le_ticks {low high : Nat} (h : low ≤ high) : ticks low ≤ ticks high := by
  rcases Nat.lt_or_eq_of_le h with h | rfl
  · exact Nat.le_of_lt (ticks_lt_ticks h)
  · exact Nat.le_refl _

/-! ## The last step below -/

/-- A number of at most 53 binary digits stands for itself. -/
theorem ofTicks_of_lt {t : Nat} (h : t < 2 * blockSize) : ofTicks t = t := by
  have short : t.log2 - 52 = 0 := by
    by_cases zero : t = 0
    · subst zero; decide
    · have := (Nat.log2_lt zero (k := 53)).2 (by unfold blockSize at h; omega)
      omega
  rw [ofTicks, short, Nat.zero_mul, Nat.zero_add, Nat.shiftRight_zero]

/-- The leading 53 binary digits of a number of ticks. -/
theorem leading_bounds {t : Nat} (h : 2 * blockSize ≤ t) :
    blockSize ≤ t >>> (t.log2 - 52) ∧ t >>> (t.log2 - 52) < 2 * blockSize := by
  unfold blockSize at *
  have zero : t ≠ 0 := by omega
  have long : 53 ≤ t.log2 := (Nat.le_log2 zero).2 (by omega)
  have split_log : t.log2 = 52 + (t.log2 - 52) := by omega
  have split_succ : t.log2 + 1 = 53 + (t.log2 - 52) := by omega
  rw [Nat.shiftRight_eq_div_pow]
  constructor
  · rw [Nat.le_div_iff_mul_le (Nat.two_pow_pos _)]
    calc 2 ^ 52 * 2 ^ (t.log2 - 52) = 2 ^ t.log2 := by rw [← Nat.pow_add, ← split_log]
      _ ≤ t := Nat.log2_self_le zero
  · rw [Nat.div_lt_iff_lt_mul (Nat.two_pow_pos _)]
    calc t < 2 ^ (t.log2 + 1) := Nat.lt_log2_self
      _ = 2 ^ 53 * 2 ^ (t.log2 - 52) := by rw [← Nat.pow_add, ← split_succ]

/-- The step below a number of ticks is at most that far up. -/
theorem ticks_ofTicks_le (t : Nat) : ticks (ofTicks t) ≤ t := by
  by_cases small : t < 2 * blockSize
  · exact Nat.le_of_eq (by rw [ofTicks_of_lt small, ticks_of_le (by omega)])
  · obtain ⟨low, high⟩ := leading_bounds (Nat.le_of_not_lt small)
    rw [ofTicks, ticks_block _ low (by omega), Nat.shiftLeft_eq, Nat.shiftRight_eq_div_pow]
    exact Nat.div_mul_le_self _ _

/-- The step after it is further up. -/
theorem lt_ticks_ofTicks_succ (t : Nat) : t < ticks (ofTicks t + 1) := by
  by_cases small : t < 2 * blockSize
  · rw [ofTicks_of_lt small, ticks_of_le (by omega)]
    omega
  · obtain ⟨low, high⟩ := leading_bounds (Nat.le_of_not_lt small)
    rw [ofTicks, Nat.add_assoc, ticks_block _ (by omega) (by omega), Nat.shiftLeft_eq,
      Nat.shiftRight_eq_div_pow]
    exact Nat.lt_mul_of_div_lt (Nat.lt_succ_self _) (Nat.two_pow_pos _)

/-- The step between whose ticks and the next step's a number of ticks lies is the step below. -/
theorem ofTicks_eq {step t : Nat} (low : ticks step ≤ t) (high : t < ticks (step + 1)) :
    ofTicks t = step := by
  have below := ticks_ofTicks_le t
  have above := lt_ticks_ofTicks_succ t
  by_cases less : ofTicks t < step
  · have : ticks (ofTicks t + 1) ≤ ticks step := ticks_le_ticks less
    omega
  · by_cases more : step < ofTicks t
    · have : ticks (step + 1) ≤ ticks (ofTicks t) := ticks_le_ticks more
      omega
    · omega

/-- The last step that is not above the ticks of a step is that step. -/
@[simp] theorem ofTicks_ticks (step : Nat) : ofTicks (ticks step) = step :=
  ofTicks_eq (Nat.le_refl _) (ticks_lt_ticks_succ step)

/-! ## Rounding -/

theorem ticksInOne_pos : 0 < ticksInOne := by
  rw [ticksInOne, Nat.shiftLeft_eq, Nat.one_mul]
  exact Nat.two_pow_pos tickPlaces

/-- Rounding looks at the quotient only. -/
theorem nearest_mul_mul (num den : Nat) {factor : Nat} (pos : 0 < factor) :
    nearest (num * factor) (den * factor) = nearest num den := by
  have scaled : num * factor * ticksInOne = num * ticksInOne * factor := by
    rw [Nat.mul_right_comm]
  unfold nearest
  simp only [scaled, Nat.mul_div_mul_right _ _ pos, ← Nat.mul_assoc]
  simp only [Nat.mul_lt_mul_right pos]

/-- A quotient that is a whole number of ticks rounds to the step with these ticks. -/
@[simp] theorem nearest_ticks (step : Nat) : nearest (ticks step) ticksInOne = step := by
  have whole : ticks step * ticksInOne / ticksInOne = ticks step :=
    Nat.mul_div_cancel _ ticksInOne_pos
  have next := ticks_lt_ticks_succ step
  unfold nearest
  simp only [whole, ofTicks_ticks, ← Nat.mul_assoc]
  rw [if_pos]
  exact Nat.mul_lt_mul_of_pos_right (by omega) ticksInOne_pos

/-! ## Reading back -/

/-- What is chosen on a grid reads back. -/
theorem step_of_onGrid? {tie : TieRule} {step : Nat} {exponent : Int} {d : Decimal}
    (h : onGrid? tie step exponent = some d) : d.step = step := by
  simp only [onGrid?] at h
  split at h
  · next below =>
    split at h
    · next above =>
      split at h
      · cases h; exact below
      · split at h
        · cases h; exact above
        · split at h
          · cases h; exact below
          · cases h; exact above
    · cases h; exact below
  · split at h
    · next above => cases h; exact above
    · cases h

/-- A power of ten is a power of five, shifted. -/
theorem powerOfTen_eq (places : Nat) : powerOfTen places = Nat.pow 5 places * 1 <<< places := by
  rw [Nat.shiftLeft_eq, Nat.one_mul]
  exact Nat.mul_pow 5 2 places

theorem five_pow_pos (places : Nat) : 0 < Nat.pow 5 places := Nat.pow_pos (by decide)

/-- Each factor of five brings more than one binary digit. -/
theorem le_log2_mul_five_pow {n : Nat} (pos : 0 < n) (places : Nat) :
    places ≤ (n * Nat.pow 5 places).log2 := by
  rw [Nat.le_log2 (Nat.ne_of_gt (Nat.mul_pos pos (five_pow_pos places)))]
  exact Nat.le_trans (Nat.pow_le_pow_left (by decide) places) (Nat.le_mul_of_pos_left _ pos)

/-- A tick is the fraction `5 / 10` to the power of the places. -/
theorem digits_exactly (step : Nat) :
    (exactly step).digits = ticks step * Nat.pow 5 tickPlaces := by
  have scale : powerOfTen tickPlaces = Nat.pow 5 tickPlaces * ticksInOne := by
    rw [powerOfTen_eq, ticksInOne]
  unfold exactly
  dsimp only
  rw [scale, ← Nat.mul_assoc, Nat.mul_div_cancel _ ticksInOne_pos]

/-- The exact decimal of a step reads back. -/
theorem step_exactly {step : Nat} (pos : step ≠ 0) : (exactly step).step = step := by
  have some_ticks : 0 < ticks step :=
    Nat.lt_of_le_of_lt (Nat.zero_le _) (ticks_lt_ticks (Nat.pos_of_ne_zero pos))
  have scale : powerOfTen tickPlaces = Nat.pow 5 tickPlaces * ticksInOne := by
    rw [powerOfTen_eq, ticksInOne]
  have digits := digits_exactly step
  have digits_pos : ticks step * Nat.pow 5 tickPlaces ≠ 0 :=
    Nat.ne_of_gt (Nat.mul_pos some_ticks (five_pow_pos tickPlaces))
  have long := le_log2_mul_five_pow some_ticks tickPlaces
  have forward : (-(tickPlaces : Int)).toNat = 0 := by omega
  have backward : (- -(tickPlaces : Int)).toNat = tickPlaces := by omega
  have one : powerOfTen 0 = 1 := rfl
  unfold exactly Decimal.step at *
  dsimp only at digits ⊢
  rw [digits, if_neg digits_pos, if_neg (by omega), if_neg (by omega), forward, backward, one,
    Nat.mul_one, scale, Nat.mul_comm _ ticksInOne, nearest_mul_mul _ _ (five_pow_pos tickPlaces),
    nearest_ticks]

/-- The shortest decimal of a step reads back to the step. -/
@[simp] theorem step_shortest (tie : TieRule) (step : Nat) : (shortest tie step).step = step := by
  unfold shortest
  split
  · next zero => rw [zero]; rfl
  · next pos =>
    dsimp only
    generalize (List.range 22).map _ = grids
    cases found : grids.findSome? (onGrid? tie step) with
    | none => exact step_exactly pos
    | some d =>
      obtain ⟨_, _, hit⟩ := List.exists_of_findSome?_eq_some found
      exact step_of_onGrid? hit

end Step
end DocumentBase
