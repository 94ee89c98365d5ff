import DocumentBase.Number.Literal
import DocumentBase.Proofs.Number.Layout

/-!
# DocumentBase.Proofs.Number.Literals

A number read back from its plain text, as a literal is read.  Plain text has no exponent: it is
digits, or digits around a point, and what is read of it is the decimal that was written, with the
zeros behind a whole number counted among its digits (`decimal?_positional`).  That decimal was
chosen to be nearest to the number, so the number is what a literal of its text stands for, NaN and
the infinities by their names (`ofLiteral?_text`).
-/

namespace DocumentBase

open Digits

/-- A run of digits ends where another character comes. -/
theorem Digits.span_chars {chars rest : List Char} (digits : ∀ c ∈ chars, c.isDigit)
    (stop : ∀ c ∈ rest.head?, ofChar? c = none) :
    span ofChar? (chars ++ rest) = (figures chars, rest) := by
  induction chars with
  | nil =>
    cases rest with
    | nil => rfl
    | cons c rest => simp [span, figures, stop c rfl]
  | cons c chars ih =>
    have digit : ofChar? c = some (c.toNat - '0'.toNat) := if_pos (digits c List.mem_cons_self)
    have tail := ih fun other held => digits other (List.mem_cons_of_mem _ held)
    rw [List.cons_append, span, digit]
    simp [tail, figures]

namespace Literal

/-! ## Digits and a point -/

/-- Digits alone write a whole number. -/
theorem decimal?_whole {whole : List Char} (digits : ∀ c ∈ whole, c.isDigit)
    (nonempty : whole ≠ []) : decimal? whole = some ⟨value (figures whole), 0⟩ := by
  have read := @span_chars whole [] digits (by simp)
  have some_figure : figures whole ≠ [] := by simpa [figures] using nonempty
  rw [List.append_nil] at read
  simp [decimal?, read, some_figure, exponent?]

/-- Digits around a point write a decimal with as many places as there are digits behind it. -/
theorem decimal?_point {whole fraction : List Char} (digits : ∀ c ∈ whole, c.isDigit)
    (places : ∀ c ∈ fraction, c.isDigit) (nonempty : whole ≠ []) :
    decimal? (whole ++ '.' :: fraction)
      = some ⟨value (figures (whole ++ fraction)), -fraction.length⟩ := by
  have read := @span_chars whole ('.' :: fraction) digits (by simp [ofChar?])
  have read_places := @span_chars fraction [] places (by simp)
  have some_figure : figures whole ≠ [] := by simpa [figures] using nonempty
  rw [List.append_nil] at read_places
  simp [decimal?, read, read_places, some_figure, exponent?]

/-! ## Decimals -/

/-- Digits around a point that are those of a decimal, with its places, are read as that decimal. -/
theorem decimal?_fractional {d : Decimal} {whole fraction : List Char}
    (digits : ∀ c ∈ whole ++ fraction, c.isDigit) (nonempty : whole ≠ [])
    (number : value (figures (whole ++ fraction)) = d.digits)
    (places : (fraction.length : Int) = -d.exponent) :
    decimal? (whole ++ '.' :: fraction) = some d := by
  rw [decimal?_point (fun c held => digits c (List.mem_append_left _ held))
    (fun c held => digits c (List.mem_append_right _ held)) nonempty, number, places, Int.neg_neg]

/-- What is written of a decimal without an exponent is read as that decimal; the zeros that a whole
number has behind its digits are read as digits. -/
theorem decimal?_positional (d : Decimal) :
    decimal? d.positional =
      some (if d.exponent < 0 then d else ⟨d.digits * powerOfTen d.exponent.toNat, 0⟩) := by
  have digits := isDigit_digitChars d.digits
  by_cases fractional : d.exponent < 0
  · rw [if_pos fractional]
    unfold Decimal.positional
    dsimp only
    rw [if_neg (by omega)]
    by_cases inside : (-d.exponent).toNat < (Decimal.digitChars d.digits).length
    · rw [if_pos inside]
      refine decimal?_fractional ?_ ?_ ?_ ?_
      · rwa [List.take_append_drop]
      · rw [ne_eq, List.take_eq_nil_iff, not_or]
        exact ⟨by omega, digitChars_ne_nil d.digits⟩
      · rw [List.take_append_drop, value_digitChars]
      · rw [List.length_drop]
        omega
    · rw [if_neg inside]
      refine @decimal?_fractional d ['0'] _ ?_ (by simp) ?_ ?_
      · exact List.forall_mem_append.2 ⟨isDigit_zeros 1,
          List.forall_mem_append.2 ⟨isDigit_zeros _, digits⟩⟩
      · have zeros : value (figures ['0']) = 0 := rfl
        rw [figures_append, figures_append, figures_zeros, value_append, value_append, zeros,
          value_zeros, value_digitChars]
        simp
      · rw [List.length_append, List.length_replicate]
        omega
  · rw [if_neg fractional, decimal?_whole (Decimal.isDigit_positional fractional),
      Decimal.value_positional fractional]
    simp [Decimal.positional_whole fractional]

/-- A decimal has no sign of its own. -/
theorem sign_of_decimal? {text : List Char} {d : Decimal} (read : decimal? text = some d) :
    sign text = (false, text) := by
  unfold sign
  split
  · simp [decimal?, span, ofChar?] at read
  · simp [decimal?, span, ofChar?] at read
  · rfl

end Literal

/-! ## Numbers -/

/-- Plain text is the shortest decimal without an exponent, behind the sign. -/
theorem Finite.write_plain (x : Finite) :
    x.write .plain = if x.negative then '-' :: (Step.shortest .up x.step).positional
      else (Step.shortest .up x.step).positional := by
  simp [write, NumberStyle.plain]

/-- What is read of the shortest decimal of a step is nearest to that step. -/
theorem Decimal.step_positional {step : Nat} (finite : step < Step.count) {d : Decimal}
    (shortest : Step.shortest .up step = d) :
    (if d.exponent < 0 then d else ⟨d.digits * powerOfTen d.exponent.toNat, 0⟩ : Decimal).step
      = step := by
  have nearest : d.step = step := shortest ▸ Step.step_shortest .up step
  split
  · exact nearest
  · next whole =>
    obtain ⟨digits, exponent⟩ := d
    dsimp only at whole ⊢
    by_cases zero : digits = 0
    · rw [← nearest, zero, Nat.zero_mul, step_zero, step_zero]
    · have power : (0 : Int) + exponent.toNat = exponent := by omega
      rw [← nearest, ← power] at finite
      rw [step_shift zero _ _ (.inr finite), power, nearest]

/-- A number is what a literal of its text stands for. -/
theorem Number.ofLiteral?_text (x : Number) : ofLiteral? x.text = some x := by
  cases x with
  | nan => rfl
  | infinite negative => cases negative <;> rfl
  | finite x =>
    obtain ⟨negative, step, finite⟩ := x
    generalize shortest : Step.shortest .up step = d
    have read := Literal.decimal?_positional d
    have nearest := Decimal.step_positional finite shortest
    generalize (if d.exponent < 0 then d else ⟨d.digits * powerOfTen d.exponent.toNat, 0⟩) = e
      at read nearest
    have number : e.toNumber negative = .finite ⟨negative, step, finite⟩ := by
      subst nearest
      exact dif_pos finite
    rw [text, Finite.write_plain, shortest, ofLiteral?, String.toList_ofList]
    cases negative with
    | true => simp [Literal.sign, read, number]
    | false => simp [Literal.sign_of_decimal? read, read, number]

end DocumentBase
