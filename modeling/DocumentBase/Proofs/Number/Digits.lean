import DocumentBase.Proofs.Number.Decimals
import DocumentBase.Text.Utf8

/-!
# DocumentBase.Proofs.Number.Digits

Runs of digits: what is written as digits is read as the same digits, and stands for the number it
was made of.  Zeros in front of a run do not count, zeros behind it count a power of ten.
-/

namespace DocumentBase.Digits

/-! ## Reading a run -/

/- Digits are characters when they are written and bytes when they are read.  What both stand for
are the `figures`, and reading a run of digits gives these. -/

/-- What the characters of a run of digits stand for. -/
def figures (chars : List Char) : List Nat := chars.map fun c => c.toNat - '0'.toNat

/-- No digit is at the front of a text. -/
def NoDigitHead (text : List UInt8) : Prop := ∀ b ∈ text.head?, ofByte? b = none

@[simp] theorem figures_append (front back : List Char) :
    figures (front ++ back) = figures front ++ figures back := by
  simp [figures]

@[simp] theorem figures_zeros (count : Nat) :
    figures (List.replicate count '0') = List.replicate count 0 := by
  rw [figures, List.map_replicate]
  rfl

@[simp] theorem length_figures (chars : List Char) : (figures chars).length = chars.length := by
  simp [figures]

theorem digit_range {c : Char} (h : c.isDigit) : 48 ≤ c.toNat ∧ c.toNat ≤ 57 :=
  Char.isDigit_iff_toNat.1 h

/-- What digits stand for is below ten. -/
theorem figures_lt {chars : List Char} (digits : ∀ c ∈ chars, c.isDigit) :
    ∀ d ∈ figures chars, d < 10 := by
  intro d hd
  obtain ⟨c, hc, rfl⟩ := List.mem_map.1 hd
  have := digit_range (digits c hc)
  show c.toNat - 48 < 10
  omega

/-- The byte of a digit stands for what the digit does. -/
theorem ofByte?_digit {c : Char} (h : c.isDigit) :
    ofByte? (UInt8.ofNat c.toNat) = some (c.toNat - '0'.toNat) := by
  obtain ⟨low, high⟩ := digit_range h
  have byte : (UInt8.ofNat c.toNat).toNat = c.toNat :=
    UInt8.toNat_ofNat_of_lt' (Nat.lt_of_le_of_lt high (by decide))
  have range : 0x30 ≤ UInt8.ofNat c.toNat ∧ UInt8.ofNat c.toNat ≤ 0x39 := by
    rw [UInt8.le_iff_toNat_le, UInt8.le_iff_toNat_le, byte]
    exact ⟨low, high⟩
  rw [ofByte?, if_pos range, byte]
  rfl

theorem encode_digit {c : Char} (h : c.isDigit) :
    String.utf8EncodeChar c = [UInt8.ofNat c.toNat] := by
  have := digit_range h
  exact Utf8.utf8EncodeChar_ascii (by omega)

/-- A run of digits is read to its end, if no digit stands behind it. -/
theorem span_encode {chars : List Char} {rest : List UInt8} (digits : ∀ c ∈ chars, c.isDigit)
    (stop : NoDigitHead rest) :
    span ofByte? (Utf8.encode chars ++ rest) = (figures chars, rest) := by
  induction chars with
  | nil =>
    cases rest with
    | nil => rfl
    | cons b rest =>
      have none_digit : ofByte? b = none := stop b rfl
      show span ofByte? (b :: rest) = ([], b :: rest)
      simp only [span, none_digit]
  | cons c chars ih =>
    have digit := digits c List.mem_cons_self
    rw [Utf8.encode_cons, encode_digit digit]
    simp only [List.cons_append, List.nil_append, span, ofByte?_digit digit,
      ih fun c hc => digits c (List.mem_cons_of_mem _ hc)]
    rfl

/-! ## What a run stands for -/

theorem foldl_value (digits : List Nat) (n : Nat) :
    digits.foldl (fun n d => 10 * n + d) n
      = n * powerOfTen digits.length + value digits := by
  unfold value
  induction digits generalizing n with
  | nil => simp
  | cons d digits ih =>
    rw [List.foldl_cons, List.foldl_cons, ih, ih (10 * 0 + d), List.length_cons, Nat.add_comm _ 1,
      powerOfTen_add, show powerOfTen 1 = 10 from rfl, ← Nat.mul_assoc]
    rw [Nat.add_mul, Nat.add_mul, Nat.mul_comm 10 n]
    omega

/-- The front of a run counts as many powers of ten as there are digits behind it. -/
theorem value_append (front back : List Nat) :
    value (front ++ back) = value front * powerOfTen back.length + value back := by
  rw [← foldl_value, value, value, List.foldl_append]

theorem value_cons (d : Nat) (digits : List Nat) :
    value (d :: digits) = d * powerOfTen digits.length + value digits := by
  rw [← foldl_value, value, List.foldl_cons, Nat.mul_zero, Nat.zero_add]

/-- A run of digits stands for less than its power of ten. -/
theorem value_lt {digits : List Nat} (h : ∀ d ∈ digits, d < 10) :
    value digits < powerOfTen digits.length := by
  induction digits with
  | nil => exact powerOfTen_pos 0
  | cons d digits ih =>
    have tail := ih fun d hd => h d (List.mem_cons_of_mem _ hd)
    have head : d + 1 ≤ 10 := h d List.mem_cons_self
    have := Nat.mul_le_mul_right (powerOfTen digits.length) head
    rw [value_cons, List.length_cons, Nat.add_comm _ 1, powerOfTen_add,
      show powerOfTen 1 = 10 from rfl]
    rw [Nat.add_mul] at this
    omega

@[simp] theorem value_zeros (count : Nat) : value (List.replicate count 0) = 0 := by
  induction count with
  | zero => rfl
  | succ count ih => rw [List.replicate_succ, value_cons, ih, Nat.zero_mul]

/-- Zeros at the end of a run are factors of ten. -/
theorem value_append_zeros (digits : List Nat) (count : Nat) :
    value (digits ++ List.replicate count 0) = value digits * powerOfTen count := by
  rw [value_append, value_zeros, List.length_replicate, Nat.add_zero]

/-- The last digit is what is left over of tens. -/
theorem value_mod_ten {front : List Nat} {last : Nat} (h : last < 10) :
    value (front ++ [last]) % 10 = last := by
  have one : value [last] = last := by simp [value]
  rw [value_append, one, List.length_singleton, show powerOfTen 1 = 10 from rfl]
  omega

/-! ## Zeros at the ends -/

/- Zeros in front of the digits and behind them come and go between writing and reading.  In front
they do not count, and behind they are factors of ten, for which the exponent makes up. -/

/-- Zeros in front of a run do not count. -/
@[simp] theorem value_withoutLeadingZeros (digits : List Nat) :
    value (withoutLeadingZeros digits) = value digits := by
  induction digits with
  | nil => rfl
  | cons d digits ih =>
    unfold withoutLeadingZeros at ih ⊢
    by_cases zero : d = 0
    · subst zero
      rw [List.dropWhile_cons_of_pos rfl, ih, value_cons, Nat.zero_mul, Nat.zero_add]
    · rw [List.dropWhile_cons_of_neg (by simpa using zero)]

/-- A run of digits without zeros at its front is no longer than its number needs. -/
theorem length_withoutLeadingZeros_le {digits : List Nat} {limit : Nat}
    (small : value digits < powerOfTen limit) :
    (withoutLeadingZeros digits).length ≤ limit := by
  have whole := value_withoutLeadingZeros digits
  have head := List.head?_dropWhile_not (· == 0) digits
  rw [show digits.dropWhile (· == 0) = withoutLeadingZeros digits from rfl] at head
  cases front : withoutLeadingZeros digits with
  | nil => exact Nat.zero_le _
  | cons d rest =>
    rw [front, List.head?_cons] at head
    have nonzero : d ≠ 0 := by simpa using head
    refine Nat.le_of_not_lt fun long => ?_
    have power : powerOfTen limit ≤ powerOfTen rest.length := powerOfTen_mono (by
      rw [List.length_cons] at long
      omega)
    have := Nat.le_mul_of_pos_left (powerOfTen rest.length) (Nat.pos_of_ne_zero nonzero)
    rw [front, value_cons] at whole
    omega

/-- A run of digits is what is left of it and the zeros that were taken away. -/
theorem withoutTrailingZeros_append (digits : List Nat) :
    ∃ count, digits = withoutTrailingZeros digits ++ List.replicate count 0 := by
  suffices zeros : ∀ digits : List Nat, ∃ count,
      digits = List.replicate count 0 ++ withoutLeadingZeros digits by
    obtain ⟨count, h⟩ := zeros digits.reverse
    refine ⟨count, ?_⟩
    calc digits = digits.reverse.reverse := (List.reverse_reverse digits).symm
      _ = (List.replicate count 0 ++ withoutLeadingZeros digits.reverse).reverse := by rw [← h]
      _ = withoutTrailingZeros digits ++ List.replicate count 0 := by
        rw [List.reverse_append, List.reverse_replicate, withoutTrailingZeros]
  intro digits
  induction digits with
  | nil => exact ⟨0, rfl⟩
  | cons d digits ih =>
    obtain ⟨count, h⟩ := ih
    unfold withoutLeadingZeros at h ⊢
    by_cases zero : d = 0
    · subst zero
      refine ⟨count + 1, ?_⟩
      rw [List.dropWhile_cons_of_pos rfl, List.replicate_succ, List.cons_append, ← h]
    · refine ⟨0, ?_⟩
      rw [List.dropWhile_cons_of_neg (by simpa using zero)]
      rfl

/-- Zeros taken away from the end of a fraction are factors of ten. -/
theorem value_withoutTrailingZeros (whole fraction : List Nat) :
    ∃ count, value (whole ++ fraction)
        = value (whole ++ withoutTrailingZeros fraction) * powerOfTen count
      ∧ fraction.length = (withoutTrailingZeros fraction).length + count := by
  obtain ⟨count, h⟩ := withoutTrailingZeros_append fraction
  refine ⟨count, ?_, ?_⟩
  · rw [← value_append_zeros, List.append_assoc, ← h]
  · rw [← List.length_replicate (n := count) (a := 0), ← List.length_append, ← h]

/-- What is left of a run of digits does not end in a zero. -/
theorem withoutTrailingZeros_end (digits : List Nat) :
    withoutTrailingZeros digits = []
      ∨ ∃ front last, withoutTrailingZeros digits = front ++ [last] ∧ last ≠ 0 := by
  have head := List.head?_dropWhile_not (· == 0) digits.reverse
  unfold withoutTrailingZeros withoutLeadingZeros
  cases back : digits.reverse.dropWhile (· == 0) with
  | nil => exact .inl rfl
  | cons last front =>
    rw [back, List.head?_cons] at head
    exact .inr ⟨front.reverse, last, List.reverse_cons, by simpa using head⟩

/-! ## The digits of a number -/

/-- The digits of a number stand for it. -/
@[simp] theorem value_digitChars (n : Nat) : value (figures (Decimal.digitChars n)) = n := by
  have fold := Nat.ofDigitChars_ten_toDigits (n := n)
  rw [Nat.ofDigitChars_eq_foldl] at fold
  rw [value, figures, List.foldl_map]
  exact fold

theorem isDigit_digitChars (n : Nat) : ∀ c ∈ Decimal.digitChars n, c.isDigit := fun _ hc =>
  Nat.isDigit_of_mem_toDigits (by decide) (by decide) hc

theorem isDigit_zeros (count : Nat) : ∀ c ∈ List.replicate count '0', c.isDigit := by
  intro c hc
  rw [(List.mem_replicate.1 hc).2]
  rfl

@[simp] theorem digitChars_ne_nil (n : Nat) : Decimal.digitChars n ≠ [] := Nat.toDigits_ne_nil

/-- Digits of a number begin with a zero only if there are no others. -/
theorem digitChars_leading_zero {n : Nat} {rest : List Nat}
    (h : figures (Decimal.digitChars n) = 0 :: rest) : rest = [] := by
  have number := value_digitChars n
  have length := length_figures (Decimal.digitChars n)
  have small : value rest < powerOfTen rest.length := by
    refine value_lt fun d hd => figures_lt (isDigit_digitChars n) d ?_
    rw [h]
    exact List.mem_cons_of_mem _ hd
  rw [h, value_cons, Nat.zero_mul, Nat.zero_add] at number
  rw [h, List.length_cons] at length
  refine List.eq_nil_iff_length_eq_zero.2 (Nat.eq_zero_of_not_pos fun more => ?_)
  have short := (Nat.length_toDigits_le_iff (n := n) (by decide : 1 < 10) more).2
    (number ▸ small)
  unfold Decimal.digitChars at length
  omega

end DocumentBase.Digits
