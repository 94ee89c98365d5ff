import DocumentBase.Proofs.Number.ReadBack

/-!
# DocumentBase.Proofs.Number.Layout

The layouts of a number in JSON: positional with a fraction, positional with `.0` behind it, and
with an exponent.  Each is a `NumberText` that spells the decimal it was laid out for, so a double
reads back from its text (`number_write`); so does an integer, which has digits only
(`number_integer`).
-/

namespace DocumentBase

open Digits Json

namespace Decimal

/-- A number text is a layout of a decimal: it spells it, and shows that it is no integer. -/
structure IsLayout (text : NumberText) (d : Decimal) (unsigned : List Char) : Prop where
  wellFormed : text.WellFormed
  spells : text.Spells d
  chars_eq : text.chars = text.signChars ++ unsigned
  shown : text.fraction ≠ none ∨ text.exponent ≠ none

/-! ## Digits around a point -/

/- Which layout is written depends on where the point is to stand.  In each of them the text is
given piece by piece, and then it is to be shown that the pieces are well formed, that they spell
the decimal, and that they are what is written. -/

/-- Digits on both sides of a point are a layout, with as many behind it as the exponent says. -/
theorem layout_split {d : Decimal} (negative : Bool) (fractional : d.exponent < 0)
    (low : d.leadingExponent < 16) (inside : (-d.exponent).toNat < (digitChars d.digits).length) :
    IsLayout ⟨negative,
      (digitChars d.digits).take ((digitChars d.digits).length - (-d.exponent).toNat),
      some ((digitChars d.digits).drop ((digitChars d.digits).length - (-d.exponent).toNat)), none⟩
      d d.positional := by
  have digits := isDigit_digitChars d.digits
  have together : figures ((digitChars d.digits).take
        ((digitChars d.digits).length - (-d.exponent).toNat))
      ++ figures ((digitChars d.digits).drop
        ((digitChars d.digits).length - (-d.exponent).toNat)) = figures (digitChars d.digits) := by
    rw [← figures_append, List.take_append_drop]
  unfold leadingExponent at low
  constructor
  case wellFormed =>
    constructor
    case whole_ne_nil =>
      intro nothing
      have length := congrArg List.length nothing
      rw [List.length_take, List.length_nil] at length
      omega
    case whole_digits => exact fun c hc => digits c (List.mem_of_mem_take hc)
    case leading_zero =>
      intro rest zero
      rw [zero, List.cons_append] at together
      exact (List.append_eq_nil_iff.1 (digitChars_leading_zero together.symm)).1
    case fraction_ne_nil =>
      rintro _ ⟨⟩ nothing
      have length := congrArg List.length nothing
      rw [List.length_drop, List.length_nil] at length
      omega
    case fraction_digits =>
      rintro _ ⟨⟩ c hc
      exact digits c (List.mem_of_mem_drop hc)
  case spells =>
    constructor
    case short =>
      rw [List.length_take, digitLimit]
      omega
    case digits =>
      refine ⟨0, ?_, ?_⟩
      · simp [NumberText.figures, together]
      · rw [Option.getD_none, Option.getD_some, List.length_drop]
        omega
  case chars_eq =>
    unfold positional
    dsimp only
    rw [if_neg (by omega), if_pos inside]
    simp [NumberText.chars, NumberText.fractionChars, NumberText.exponentChars]
  case shown => exact .inl (by simp)

/-- Digits behind a point and zeros are a layout, with a single zero in front of the point. -/
theorem layout_leading_zero {d : Decimal} (negative : Bool) (fractional : d.exponent < 0)
    (outside : ¬ (-d.exponent).toNat < (digitChars d.digits).length) :
    IsLayout ⟨negative, ['0'],
      some (List.replicate ((-d.exponent).toNat - (digitChars d.digits).length) '0'
        ++ digitChars d.digits), none⟩ d d.positional := by
  have lone : figures ['0'] = [0] := rfl
  constructor
  case wellFormed =>
    constructor
    case whole_ne_nil => simp
    case whole_digits => exact isDigit_zeros 1
    case leading_zero => simp [lone]
    case fraction_ne_nil => simp
    case fraction_digits =>
      rintro _ ⟨⟩
      exact List.forall_mem_append.2 ⟨isDigit_zeros _, isDigit_digitChars d.digits⟩
  case spells =>
    constructor
    case short => simp [digitLimit]
    case digits =>
      refine ⟨0, ?_, ?_⟩
      · -- The zeros in front of the digits count nothing.
        simp [NumberText.figures, lone, value_cons, value_append]
      · rw [Option.getD_none, Option.getD_some, List.length_append, List.length_replicate]
        omega
  case chars_eq =>
    unfold positional
    dsimp only
    rw [if_neg (by omega), if_neg outside]
    simp [NumberText.chars, NumberText.fractionChars, NumberText.exponentChars]
  case shown => exact .inl (by simp)

/-- The digits of a whole number, with the zeros that its exponent stands for. -/
theorem positional_whole {d : Decimal} (whole : ¬ d.exponent < 0) :
    d.positional = digitChars d.digits
      ++ List.replicate (if d.digits = 0 then 0 else d.exponent.toNat) '0' := by
  unfold positional
  dsimp only
  rw [if_pos (by omega)]
  split <;> simp

theorem isDigit_positional {d : Decimal} (whole : ¬ d.exponent < 0) :
    ∀ c ∈ d.positional, c.isDigit := by
  rw [positional_whole whole]
  exact List.forall_mem_append.2 ⟨isDigit_digitChars d.digits, isDigit_zeros _⟩

/-- A whole number begins with a zero only if it is zero, and then it has no other digits. -/
theorem positional_leading_zero {d : Decimal} (whole : ¬ d.exponent < 0) {rest : List Nat}
    (zero : figures d.positional = 0 :: rest) : rest = [] := by
  obtain ⟨first, more, cons⟩ := List.exists_cons_of_ne_nil (digitChars_ne_nil d.digits)
  rw [positional_whole whole, figures_append, figures_zeros, cons] at zero
  obtain ⟨head, tail⟩ := List.cons.inj zero
  have starts : figures (digitChars d.digits) = 0 :: figures more := by
    rw [cons, ← head]
    rfl
  have none_more : figures more = [] := digitChars_leading_zero starts
  have is_zero : d.digits = 0 := by
    rw [← value_digitChars d.digits, starts, none_more]
    rfl
  rw [if_pos is_zero] at tail
  rw [← tail]
  simpa [figures] using none_more

/-- A whole number has the digits of the decimal, shifted by its exponent. -/
theorem value_positional {d : Decimal} (whole : ¬ d.exponent < 0) :
    value (figures d.positional) = d.digits * powerOfTen d.exponent.toNat := by
  rw [positional_whole whole, figures_append, figures_zeros, value_append_zeros, value_digitChars]
  split
  · next zero => rw [zero, Nat.zero_mul, Nat.zero_mul]
  · rfl

/-- A whole number is a layout with a zero behind its point. -/
theorem layout_whole {d : Decimal} (negative : Bool) (whole : ¬ d.exponent < 0)
    (low : d.leadingExponent < 16) :
    IsLayout ⟨negative, d.positional, some ['0'], none⟩ d (d.positional ++ ['.', '0']) := by
  have positional := positional_whole whole
  have lone : figures ['0'] = List.replicate 1 0 := rfl
  constructor
  case wellFormed =>
    constructor
    case whole_ne_nil => simp [positional]
    case whole_digits => exact isDigit_positional whole
    case leading_zero => exact fun rest => positional_leading_zero whole
    case fraction_ne_nil => simp
    case fraction_digits =>
      rintro _ ⟨⟩
      exact isDigit_zeros 1
  case spells =>
    constructor
    case short =>
      unfold leadingExponent at low
      rw [positional, List.length_append, List.length_replicate, digitLimit]
      split <;> omega
    case digits =>
      -- The zero behind the point is one more than those that the exponent stands for.
      refine ⟨d.exponent.toNat + 1, ?_, ?_⟩
      · rw [NumberText.figures, Option.getD_some, lone, value_append_zeros,
          value_positional whole, powerOfTen_add, Nat.mul_assoc]
      · rw [Option.getD_none, Option.getD_some, List.length_singleton]
        omega
  case chars_eq => simp [NumberText.chars, NumberText.fractionChars, NumberText.exponentChars]
  case shown => exact .inl (by simp)

/-! ## Digits and an exponent -/

/- The point stands behind the first digit, if there are more, and the exponent is that of this
digit. -/

/-- One digit and an exponent are a layout without a point. -/
theorem layout_one_digit {d : Decimal} (negative : Bool) {digit : Char}
    (run : digitChars d.digits = [digit]) :
    IsLayout ⟨negative, [digit], none, some d.leadingExponent⟩ d d.scientific := by
  have digits := isDigit_digitChars d.digits
  have value_eq := value_digitChars d.digits
  have leading {rest} := @digitChars_leading_zero d.digits rest
  have power : d.leadingExponent = d.exponent := by simp [leadingExponent, run]
  rw [run] at digits value_eq leading
  constructor
  case wellFormed =>
    constructor
    case whole_ne_nil => simp
    case whole_digits => exact digits
    case leading_zero => exact fun rest => leading
    case fraction_ne_nil => simp
    case fraction_digits => simp
  case spells =>
    constructor
    case short => simp [digitLimit]
    case digits =>
      have no_places : figures [] = [] := rfl
      exact ⟨0, by simp [NumberText.figures, no_places, value_eq], by simp [power]⟩
  case chars_eq =>
    simp [scientific, run, NumberText.chars, NumberText.fractionChars, NumberText.exponentChars]
  case shown => exact .inr (by simp)

/-- Several digits and an exponent are a layout, with the point behind the first digit. -/
theorem layout_more_digits {d : Decimal} (negative : Bool) {first second : Char} {rest : List Char}
    (run : digitChars d.digits = first :: second :: rest) :
    IsLayout ⟨negative, [first], some (second :: rest), some d.leadingExponent⟩ d d.scientific := by
  have digits := isDigit_digitChars d.digits
  have value_eq := value_digitChars d.digits
  have leading {rest} := @digitChars_leading_zero d.digits rest
  have power : d.leadingExponent = d.exponent + (rest.length + 1 : Int) := by
    simp [leadingExponent, run]
  rw [run] at digits value_eq leading
  constructor
  case wellFormed =>
    constructor
    case whole_ne_nil => simp
    case whole_digits => simpa using digits first List.mem_cons_self
    case leading_zero =>
      intro others zero
      have starts : figures (first :: second :: rest) = 0 :: figures (second :: rest) := by
        rw [← (List.cons.inj zero).1]
        rfl
      cases leading starts
    case fraction_ne_nil => simp
    case fraction_digits =>
      rintro _ ⟨⟩ c hc
      exact digits c (List.mem_cons_of_mem _ hc)
  case spells =>
    constructor
    case short => simp [digitLimit]
    case digits =>
      refine ⟨0, ?_, ?_⟩
      · rw [NumberText.figures, Option.getD_some, ← figures_append, List.singleton_append,
          value_eq, powerOfTen_zero, Nat.mul_one]
      · simp only [Option.getD_some, List.length_cons]
        omega
  case chars_eq =>
    simp [scientific, run, NumberText.chars, NumberText.fractionChars, NumberText.exponentChars]
  case shown => exact .inr (by simp)

/-- The scientific form of a decimal is a layout, however many digits there are. -/
theorem layout_scientific (d : Decimal) (negative : Bool) :
    ∃ text : NumberText, text.negative = negative ∧ IsLayout text d d.scientific := by
  cases run : digitChars d.digits with
  | nil => exact absurd run (digitChars_ne_nil d.digits)
  | cons first rest =>
    cases rest with
    | nil => exact ⟨_, rfl, layout_one_digit negative run⟩
    | cons second rest => exact ⟨_, rfl, layout_more_digits negative run⟩

end Decimal

/-! ## Reading numbers -/

/-- The text of a finite number is a layout of its shortest decimal. -/
theorem Finite.write_layout (x : Finite) {d : Decimal} (shortest : Step.shortest .even x.step = d) :
    ∃ text : NumberText, text.negative = x.negative ∧ x.write .json = text.chars
      ∧ ∃ unsigned, Decimal.IsLayout text d unsigned := by
  have sign (text : NumberText) (unsigned : List Char) (same : text.negative = x.negative)
      (layout : Decimal.IsLayout text d unsigned) :
      (if x.negative then '-' :: unsigned else unsigned) = text.chars := by
    rw [layout.chars_eq, NumberText.signChars, same]
    cases x.negative <;> rfl
  unfold write
  dsimp only
  rw [show NumberStyle.json.tie = .even from rfl, shortest]
  by_cases positional : NumberStyle.json.isPositional d.leadingExponent
  · have low : d.leadingExponent < 16 := by simpa using (Bool.and_eq_true_iff.1 positional).2
    rw [if_pos positional]
    by_cases fractional : d.exponent < 0
    · rw [if_pos fractional]
      by_cases inside : (-d.exponent).toNat < (Decimal.digitChars d.digits).length
      · have layout := Decimal.layout_split x.negative fractional low inside
        exact ⟨_, rfl, sign _ _ rfl layout, _, layout⟩
      · have layout := Decimal.layout_leading_zero x.negative fractional inside
        exact ⟨_, rfl, sign _ _ rfl layout, _, layout⟩
    · rw [if_neg fractional]
      have layout := Decimal.layout_whole x.negative fractional low
      exact ⟨_, rfl, sign _ _ rfl layout, _, layout⟩
  · rw [if_neg positional]
    obtain ⟨text, same, layout⟩ := Decimal.layout_scientific d x.negative
    exact ⟨text, same, sign _ _ same layout, _, layout⟩

namespace Json.Reader

/-- A double reads back from its text. -/
theorem number_write (x : Finite) {rest : List UInt8} (stop : NumberEnd rest) :
    number.run (Utf8.encode (x.write .json) ++ rest) = .ok (.double x, rest) := by
  cases shortest : Step.shortest .even x.step with
  | mk digits exponent =>
    obtain ⟨text, negative, chars, unsigned, layout⟩ := x.write_layout shortest
    have step : (⟨digits, exponent⟩ : Decimal).step = x.step :=
      shortest ▸ Step.step_shortest .even x.step
    have few := Step.significant_shortest x.step_lt shortest
    have read := step_decimal_parts layout.wellFormed layout.spells few (step ▸ x.step_lt)
    rw [step] at read
    have double : numeral text.parts = doubleNumeral text.parts.negative text.parts.decimal := by
      unfold numeral
      split
      · next fraction exponent' =>
        rcases layout.shown with shown | shown
        · exact absurd (Option.map_eq_none_iff.1 fraction) shown
        · exact absurd exponent' shown
      · rfl
    rw [chars, number, run_bind_ok (numberParts_chars _ layout.wellFormed stop), double,
      doubleNumeral, show text.parts.negative = x.negative from negative, Decimal.toNumber,
      dif_pos (read ▸ x.step_lt)]
    simp only [read]
    rfl

/-- The pieces of an integer. -/
def integerText (n : Int) : NumberText := ⟨n < 0, Decimal.digitChars n.natAbs, none, none⟩

theorem integerText_wellFormed (n : Int) : (integerText n).WellFormed :=
  ⟨digitChars_ne_nil _, isDigit_digitChars _, fun _ => digitChars_leading_zero,
    by simp [integerText], by simp [integerText]⟩

/-- An integer is written as its sign and its digits. -/
@[simp] theorem chars_integerText (n : Int) : (integerText n).chars = integerChars n := by
  unfold integerChars
  by_cases negative : n < 0 <;>
    simp [integerText, negative, NumberText.chars, NumberText.signChars,
      NumberText.fractionChars, NumberText.exponentChars]

/-- An integer reads back from its text. -/
theorem number_integer (n : Int) (fits : -0x8000000000000000 ≤ n ∧ n < 0x10000000000000000)
    {rest : List UInt8} (stop : NumberEnd rest) :
    number.run (Utf8.encode (integerChars n) ++ rest) = .ok (.integer n fits, rest) := by
  have signed : (if (decide (n < 0)) = true then -(n.natAbs : Int) else n.natAbs) = n := by
    by_cases negative : n < 0
    · rw [if_pos (decide_eq_true negative)]
      omega
    · rw [if_neg (by simpa using negative)]
      omega
  rw [← chars_integerText, number,
    run_bind_ok (numberParts_chars _ (integerText_wellFormed n) stop)]
  show (wholeNumeral (n < 0) (Digits.value (figures (Decimal.digitChars n.natAbs)))).run rest = _
  rw [value_digitChars, wholeNumeral, if_neg (by simp; omega)]
  dsimp only
  simp only [signed, dif_pos fits]
  rfl

/-- Numbers begin with a sign or a digit. -/
theorem head_numeral (n : Numeral) :
    ∃ first, (Utf8.encode (numeralChars n)).head? = some first
      ∧ (first = Ascii.minus ∨ (ofByte? first).isSome) := by
  cases n with
  | integer n _ =>
    rw [numeralChars, ← chars_integerText]
    exact head_number (integerText_wellFormed n)
  | double x =>
    obtain ⟨text, _, chars, _, layout⟩ := x.write_layout rfl
    rw [numeralChars, chars]
    exact head_number layout.wellFormed

end Json.Reader
end DocumentBase
