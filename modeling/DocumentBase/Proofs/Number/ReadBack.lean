import DocumentBase.Json.Text
import DocumentBase.Proofs.Number.Digits

/-!
# DocumentBase.Proofs.Number.ReadBack

Number text reads back.  Every layout of a number is a `NumberText`: a sign, digits, and perhaps a
point with more digits, and perhaps an exponent.  The reader takes such a text apart into exactly
these pieces (`numberParts_chars`), whatever follows it, as long as it does not continue the number.
And the pieces spell a decimal that is nearest to the same step as the one that was laid out,
although zeros have come or gone at its end (`step_decimal_parts`).
-/

namespace DocumentBase.Json

open Digits

/-- A number as it is written. -/
structure NumberText where
  negative : Bool
  whole : List Char
  fraction : Option (List Char)
  exponent : Option Int

/-- Nothing at the front of a text continues a number. -/
def NumberEnd (text : List UInt8) : Prop :=
  ∀ b ∈ text.head?, ofByte? b = none ∧ b ≠ Ascii.point ∧ b ≠ Ascii.lowerE ∧ b ≠ Ascii.upperE

namespace NumberText

/-! ## Taking a number apart -/

/- One lemma for each piece, in the order in which they are read.  What comes behind a piece must
not continue it: digits end where no digit follows, and there is no fraction without a point. -/

def fractionChars (text : NumberText) : List Char :=
  match text.fraction with
  | none => []
  | some places => '.' :: places

def exponentChars (text : NumberText) : List Char :=
  match text.exponent with
  | none => []
  | some n => 'e' :: (if n < 0 then '-' else '+') :: Decimal.digitChars n.natAbs

def signChars (text : NumberText) : List Char := if text.negative then ['-'] else []

/-- The text itself. -/
def chars (text : NumberText) : List Char :=
  text.signChars ++ (text.whole ++ (text.fractionChars ++ text.exponentChars))

/-- What the reader makes of the text. -/
def parts (text : NumberText) : Reader.NumberParts :=
  ⟨text.negative, figures text.whole, text.fraction.map figures, text.exponent⟩

/-- There are digits where digits belong, and no idle zero in front. -/
structure WellFormed (text : NumberText) : Prop where
  whole_ne_nil : text.whole ≠ []
  whole_digits : ∀ c ∈ text.whole, c.isDigit
  leading_zero : ∀ rest, figures text.whole = 0 :: rest → rest = []
  fraction_ne_nil : ∀ places ∈ text.fraction, places ≠ []
  fraction_digits : ∀ places ∈ text.fraction, ∀ c ∈ places, c.isDigit

end NumberText

namespace Reader

@[simp] theorem run_peek (text : List UInt8) : peek.run text = .ok (text.head?, text) := rfl

theorem someDigits_encode (ended : DecodeError) {chars : List Char} {rest : List UInt8}
    (nonempty : chars ≠ []) (digits : ∀ c ∈ chars, c.isDigit) (stop : NoDigitHead rest) :
    (someDigits ended).run (Utf8.encode chars ++ rest) = .ok (figures chars, rest) := by
  obtain ⟨c, cs, rfl⟩ := List.exists_cons_of_ne_nil nonempty
  have run : Reader.digits.run (Utf8.encode (c :: cs) ++ rest) = .ok (figures (c :: cs), rest) :=
    congrArg Except.ok (span_encode digits stop)
  rw [someDigits, run_bind_ok run]
  rfl

/-- The digits in front of the point are read, for they have no idle zero that would end them. -/
theorem wholePart_encode (ended : DecodeError) {text : NumberText} {rest : List UInt8}
    (wf : text.WellFormed) (stop : NoDigitHead rest) :
    (wholePart ended).run (Utf8.encode text.whole ++ rest) = .ok (figures text.whole, rest) := by
  rw [wholePart, run_bind_ok (someDigits_encode ended wf.whole_ne_nil wf.whole_digits stop)]
  split
  · next heq => exact absurd (wf.leading_zero _ heq) (by simp)
  · rfl

/-- The digits behind the point are read, and where there is no point nothing is. -/
theorem fractionPart_encode (ended : DecodeError) {text : NumberText} {rest : List UInt8}
    (wf : text.WellFormed) (stop : NoDigitHead rest) (no_point : ¬ rest.head? = some Ascii.point) :
    (fractionPart ended).run (Utf8.encode text.fractionChars ++ rest)
      = .ok (text.fraction.map figures, rest) := by
  unfold NumberText.fractionChars
  cases point : text.fraction with
  | none =>
    show (fractionPart ended).run rest = .ok (none, rest)
    rw [fractionPart, run_bind_ok (run_peek rest), if_neg no_point]
    rfl
  | some places =>
    show (fractionPart ended).run (Ascii.point :: (Utf8.encode places ++ rest)) = _
    rw [fractionPart, run_bind_ok (run_peek _), List.head?_cons, if_pos rfl,
      run_bind_ok (run_advance 1 _), run_map]
    show ((someDigits ended).run (Utf8.encode places ++ rest)).map _ = _
    rw [someDigits_encode ended (wf.fraction_ne_nil places point)
      (wf.fraction_digits places point) stop]
    rfl

/-- An exponent is read with its sign. -/
theorem exponentPart_sign (ended : DecodeError) {sign : UInt8} {rest : List UInt8} (n : Nat)
    (is_sign : some sign = some Ascii.minus ∨ some sign = some Ascii.plus)
    (stop : NoDigitHead rest) :
    (exponentPart ended).run
        (Ascii.lowerE :: sign :: (Utf8.encode (Decimal.digitChars n) ++ rest))
      = .ok (some (if some sign = some Ascii.minus then -n else n), rest) := by
  rw [exponentPart, run_bind_ok (run_peek _), run_bind_ok (run_peek _), List.head?_cons,
    if_pos (.inl rfl), run_bind_ok (run_advance 1 _), run_bind_ok (run_peek _),
    List.drop_succ_cons, List.drop_zero, List.head?_cons]
  dsimp only
  rw [if_pos is_sign, run_bind_ok (run_advance 1 _), List.drop_succ_cons, List.drop_zero,
    run_bind_ok (someDigits_encode ended (digitChars_ne_nil n) (isDigit_digitChars n) stop),
    value_digitChars]
  rfl

/-- The exponent is read, and where there is none nothing is. -/
theorem exponentPart_encode (ended : DecodeError) (text : NumberText) {rest : List UInt8}
    (stop : NumberEnd rest) :
    (exponentPart ended).run (Utf8.encode text.exponentChars ++ rest)
      = .ok (text.exponent, rest) := by
  have no_digit : NoDigitHead rest := fun b hb => (stop b hb).1
  unfold NumberText.exponentChars
  cases mark : text.exponent with
  | none =>
    have no_mark : ¬ (rest.head? = some Ascii.lowerE ∨ rest.head? = some Ascii.upperE) := by
      rintro (h | h)
      · exact (stop _ h).2.2.1 rfl
      · exact (stop _ h).2.2.2 rfl
    show (exponentPart ended).run rest = .ok (none, rest)
    rw [exponentPart, run_bind_ok (run_peek rest), run_bind_ok (run_peek rest), if_neg no_mark]
    rfl
  | some n =>
    dsimp only
    by_cases negative : n < 0
    · rw [if_pos negative]
      refine (exponentPart_sign ended n.natAbs (.inl rfl) no_digit).trans ?_
      rw [if_pos rfl, Int.ofNat_natAbs_of_nonpos (by omega), Int.neg_neg]
    · rw [if_neg negative]
      refine (exponentPart_sign ended n.natAbs (.inr rfl) no_digit).trans ?_
      rw [if_neg (by decide), Int.natAbs_of_nonneg (by omega)]

/-- The front of what follows the digits before the point. -/
theorem noDigitHead_exponentChars (text : NumberText) {rest : List UInt8} (stop : NumberEnd rest) :
    NoDigitHead (Utf8.encode text.exponentChars ++ rest)
      ∧ ¬ (Utf8.encode text.exponentChars ++ rest).head? = some Ascii.point := by
  unfold NumberText.exponentChars
  cases text.exponent with
  | none => exact ⟨fun b hb => (stop b hb).1, fun h => (stop _ h).2.1 rfl⟩
  | some n =>
    refine ⟨fun b hb => ?_, fun h => ?_⟩
    · cases hb
      rfl
    · cases h

/-- A point ends the digits in front of it. -/
theorem noDigitHead_fractionChars (text : NumberText) {rest : List UInt8}
    (stop : NoDigitHead rest) : NoDigitHead (Utf8.encode text.fractionChars ++ rest) := by
  unfold NumberText.fractionChars
  cases text.fraction with
  | none => exact stop
  | some places =>
    intro b hb
    cases hb
    rfl

/-- A number without sign begins with a digit. -/
theorem head_whole {text : NumberText} (wf : text.WellFormed) (rest : List UInt8) :
    ∃ b d, (Utf8.encode text.whole ++ rest).head? = some b ∧ ofByte? b = some d := by
  obtain ⟨c, cs, whole⟩ := List.exists_cons_of_ne_nil wf.whole_ne_nil
  have digit : c.isDigit := wf.whole_digits c (by rw [whole]; exact List.mem_cons_self)
  refine ⟨_, _, ?_, ofByte?_digit digit⟩
  rw [whole, Utf8.encode_cons, encode_digit digit]
  rfl

/-- A number begins with its sign or with a digit. -/
theorem head_number {text : NumberText} (wf : text.WellFormed) :
    ∃ first, (Utf8.encode text.chars).head? = some first
      ∧ (first = Ascii.minus ∨ (ofByte? first).isSome) := by
  unfold NumberText.chars NumberText.signChars
  cases text.negative with
  | true => exact ⟨Ascii.minus, rfl, .inl rfl⟩
  | false =>
    obtain ⟨b, d, head, digit⟩ := head_whole wf
      (Utf8.encode (text.fractionChars ++ text.exponentChars))
    refine ⟨b, ?_, .inr (by rw [digit]; rfl)⟩
    rw [← head, ← Utf8.encode_append]
    rfl

/-- The reader takes a number apart into the pieces it was made of. -/
theorem numberParts_chars (ended : DecodeError) {text : NumberText} {rest : List UInt8}
    (wf : text.WellFormed) (stop : NumberEnd rest) :
    (numberParts ended).run (Utf8.encode text.chars ++ rest) = .ok (text.parts, rest) := by
  obtain ⟨no_digit, no_point⟩ := noDigitHead_exponentChars text stop
  have exponent := exponentPart_encode ended text stop
  have fraction := fractionPart_encode ended wf no_digit no_point
  have whole := wholePart_encode ended wf (noDigitHead_fractionChars text no_digit)
  have front := head_whole wf (Utf8.encode text.fractionChars
    ++ (Utf8.encode text.exponentChars ++ rest))
  unfold NumberText.chars NumberText.signChars NumberText.parts
  simp only [Utf8.encode_append, List.append_assoc]
  generalize Utf8.encode text.fractionChars ++ (Utf8.encode text.exponentChars ++ rest) = back
    at fraction whole front ⊢
  cases text.negative with
  | true =>
    show (numberParts ended).run (Ascii.minus :: (Utf8.encode text.whole ++ back)) = _
    rw [numberParts, run_bind_ok (run_peek _), List.head?_cons]
    dsimp only
    rw [if_pos rfl, run_bind_ok (run_advance 1 _), List.drop_succ_cons, List.drop_zero,
      run_bind_ok whole, run_bind_ok fraction, run_bind_ok exponent]
    rfl
  | false =>
    obtain ⟨b, d, head, digit⟩ := front
    have unsigned : ¬ some b = some Ascii.minus := by
      intro minus
      cases minus
      cases digit
    show (numberParts ended).run (Utf8.encode text.whole ++ back) = _
    rw [numberParts, run_bind_ok (run_peek _), head]
    dsimp only
    rw [if_neg unsigned, run_bind_ok whole, run_bind_ok fraction, run_bind_ok exponent,
      decide_eq_false unsigned]
    rfl

end Reader

/-! ## The decimal of the pieces -/

/- Zeros are taken away from both ends of the digits before the decimal is made of them, and only so
many digits are kept.  A text that spells a decimal has few digits but for these zeros, so that none
is lost. -/

/-- The digits that stand for a number, before and after the point. -/
def NumberText.figures (text : NumberText) : List Nat :=
  Digits.figures text.whole ++ Digits.figures (text.fraction.getD [])

/-- A text spells a decimal, perhaps with zeros added to its digits. -/
structure NumberText.Spells (text : NumberText) (d : Decimal) : Prop where
  short : text.whole.length ≤ Decimal.digitLimit
  digits : ∃ zeros, value text.figures = d.digits * powerOfTen zeros
    ∧ text.exponent.getD 0 - (text.fraction.getD []).length = d.exponent - zeros

/-- A decimal without more digits than are kept is kept as it is. -/
theorem ofDigits_eq {digits : List Nat} (small : value digits < powerOfTen Decimal.digitLimit)
    (exponent : Int) : Decimal.ofDigits digits exponent = ⟨value digits, exponent⟩ := by
  have short := length_withoutLeadingZeros_le small
  rw [Decimal.ofDigits, if_neg (Nat.not_lt_of_le short), value_withoutLeadingZeros]

/-- Of two ways to split off zeros the one that leaves no zero at the end leaves least. -/
theorem le_of_not_zero_end {m n few many : Nat} (last : n % 10 ≠ 0)
    (same : n * powerOfTen many = m * powerOfTen few) : n ≤ m := by
  have enough : few ≤ many := by
    refine Nat.le_of_not_lt fun more => last ?_
    obtain ⟨k, rfl⟩ : ∃ k, few = many + (1 + k) := ⟨few - many - 1, by omega⟩
    rw [powerOfTen_add, powerOfTen_add, Nat.mul_comm (powerOfTen many), ← Nat.mul_assoc] at same
    have cancelled := Nat.eq_of_mul_eq_mul_right (powerOfTen_pos many) same
    rw [cancelled, show powerOfTen 1 = 10 from rfl, Nat.mul_left_comm, Nat.mul_mod_right]
  obtain ⟨k, rfl⟩ := Nat.exists_eq_add_of_le enough
  rw [powerOfTen_add, Nat.mul_comm (powerOfTen few), ← Nat.mul_assoc] at same
  have cancelled := Nat.eq_of_mul_eq_mul_right (powerOfTen_pos few) same
  have := Nat.le_mul_of_pos_right n (powerOfTen_pos k)
  omega

/-- Without the zeros at the end of the fraction few digits are left, if the decimal that was
spelled had few in front of its zeros. -/
theorem figures_small {text : NumberText} {d : Decimal} (wf : text.WellFormed)
    (spells : text.Spells d)
    (few : ∃ n places, d.digits = n * powerOfTen places ∧ n < powerOfTen Decimal.digitLimit) :
    value (Digits.figures text.whole
      ++ withoutTrailingZeros (Digits.figures (text.fraction.getD [])))
        < powerOfTen Decimal.digitLimit := by
  obtain ⟨n, places, split, small⟩ := few
  obtain ⟨zeros, written, -⟩ := spells.digits
  obtain ⟨count, trimmed, -⟩ := value_withoutTrailingZeros (Digits.figures text.whole)
    (Digits.figures (text.fraction.getD []))
  have fraction_lt : ∀ d ∈ Digits.figures (text.fraction.getD []), d < 10 := by
    refine figures_lt fun c hc => ?_
    cases point : text.fraction with
    | none =>
      rw [point] at hc
      cases hc
    | some chars =>
      rw [point] at hc
      exact wf.fraction_digits chars point c hc
  rcases withoutTrailingZeros_end (Digits.figures (text.fraction.getD [])) with
    none_left | ⟨front, last, left, nonzero⟩
  · -- Nothing is left of the fraction, and the whole part has few digits by itself.
    rw [none_left, List.append_nil]
    refine Nat.lt_of_lt_of_le (value_lt (figures_lt wf.whole_digits)) ?_
    rw [length_figures]
    exact powerOfTen_mono spells.short
  · -- The last digit is no zero, so all of them are in front of the zeros of the decimal.
    have last_lt : last < 10 := by
      obtain ⟨zeros, fraction⟩ := withoutTrailingZeros_append
        (Digits.figures (text.fraction.getD []))
      refine fraction_lt last ?_
      rw [fraction, left]
      simp
    have same : value (Digits.figures text.whole
          ++ withoutTrailingZeros (Digits.figures (text.fraction.getD []))) * powerOfTen count
        = n * powerOfTen (places + zeros) := by
      rw [← trimmed, powerOfTen_add, ← Nat.mul_assoc, ← split]
      exact written
    refine Nat.lt_of_le_of_lt (le_of_not_zero_end ?_ same) small
    rw [left, ← List.append_assoc, value_mod_ten last_lt]
    exact nonzero

/-- The decimal that is read is nearest to the same step as the one that was written. -/
theorem step_decimal_parts {text : NumberText} {d : Decimal} (wf : text.WellFormed)
    (spells : text.Spells d)
    (few : ∃ n places, d.digits = n * powerOfTen places ∧ n < powerOfTen Decimal.digitLimit)
    (finite : d.step < Step.count) : text.parts.decimal.step = d.step := by
  have small := figures_small wf spells few
  obtain ⟨zeros, written, exponent⟩ := spells.digits
  obtain ⟨count, trimmed, length⟩ := value_withoutTrailingZeros (Digits.figures text.whole)
    (Digits.figures (text.fraction.getD []))
  have pieces : text.parts.fraction.getD [] = Digits.figures (text.fraction.getD []) := by
    unfold NumberText.parts
    cases text.fraction <;> rfl
  rw [length_figures] at length
  unfold Reader.NumberParts.decimal
  dsimp only
  rw [pieces]
  show (Decimal.ofDigits (Digits.figures text.whole ++ _) (text.exponent.getD 0 - _)).step = _
  rw [ofDigits_eq small]
  unfold NumberText.figures at written
  rw [trimmed] at written
  generalize withoutTrailingZeros (Digits.figures (text.fraction.getD [])) = places at *
  generalize value (Digits.figures text.whole ++ places) = n at *
  obtain ⟨digits, power⟩ := d
  dsimp only at written exponent finite ⊢
  by_cases zero : digits = 0
  · subst zero
    have : n = 0 := by
      rcases Nat.mul_eq_zero.1 (written.trans (Nat.zero_mul _)) with h | h
      · exact h
      · exact absurd h (Nat.ne_of_gt (powerOfTen_pos count))
    rw [this, Decimal.step_zero, Decimal.step_zero]
  · have nonzero : n ≠ 0 := by
      rintro rfl
      rw [Nat.zero_mul] at written
      exact Nat.mul_ne_zero zero (Nat.ne_of_gt (powerOfTen_pos zeros)) written.symm
    have wide := Decimal.step_shift zero zeros (power - zeros)
      (.inr (by rw [Int.sub_add_cancel]; exact finite))
    have narrow := Decimal.step_shift nonzero count (power - zeros)
      (.inl (by rw [written, wide, Int.sub_add_cancel]; exact finite))
    rw [written, wide, Int.sub_add_cancel] at narrow
    rw [narrow, show text.exponent.getD 0 - places.length = power - zeros + count by omega]

end DocumentBase.Json
