import DocumentBase.Json.Scalar
import DocumentBase.Json.Text

/-!
# DocumentBase.Proofs.Json.Strings

Strings read back.  Every escape that is written is resolved to the character it was written for
(`stringBytes_escapeChar`), and a character that is not escaped passes as its bytes, none of which
means anything to the reader.  So a string between its quotes gives the string, whatever its
characters are (`stringTail_chars`).
-/

namespace DocumentBase.Json.Reader

/-- An escape stands for its character. -/
theorem stringBytes_escape {numeric : Reader Char} {c : Char} {escaped text : List UInt8}
    (h : (escape numeric).run escaped = .ok (c, text)) :
    stringBytes numeric (Ascii.backslash :: escaped)
      = (stringBytes numeric text).map fun (bytes, rest) =>
        (String.utf8EncodeChar c ++ bytes, rest) := by
  rw [stringBytes.eq_def]
  dsimp only
  rw [if_neg (by decide), if_pos rfl]
  split
  · next read =>
    rw [h] at read
    cases read
  · next read =>
    rw [h] at read
    cases read
    cases stringBytes numeric text <;> rfl

/-- A byte that is not special passes. -/
theorem stringBytes_plain {numeric : Reader Char} {b : UInt8} {text : List UInt8}
    (quote : b ≠ Ascii.quote) (backslash : b ≠ Ascii.backslash) (printable : ¬ b < Ascii.space) :
    stringBytes numeric (b :: text)
      = (stringBytes numeric text).map fun (bytes, rest) => (b :: bytes, rest) := by
  rw [stringBytes.eq_def]
  dsimp only
  rw [if_neg quote, if_neg backslash, if_neg printable]
  cases stringBytes numeric text <;> rfl

/-- Bytes that are not special pass. -/
theorem stringBytes_plain_append {numeric : Reader Char} {front text : List UInt8}
    (plain : ∀ b ∈ front, b ≠ Ascii.quote ∧ b ≠ Ascii.backslash ∧ ¬ b < Ascii.space) :
    stringBytes numeric (front ++ text)
      = (stringBytes numeric text).map fun (bytes, rest) => (front ++ bytes, rest) := by
  induction front with
  | nil =>
    rw [List.nil_append]
    cases stringBytes numeric text <;> rfl
  | cons b front ih =>
    obtain ⟨quote, backslash, printable⟩ := plain b List.mem_cons_self
    rw [List.cons_append, stringBytes_plain quote backslash printable,
      ih fun b hb => plain b (List.mem_cons_of_mem _ hb)]
    cases stringBytes numeric text <;> rfl

/-- The digits of a control character stand for its number. -/
theorem hexValue?_control : ∀ n < 0x20,
    hexValue? 0x30 0x30 (UInt8.ofNat (Nat.digitChar (n / 16)).toNat)
      (UInt8.ofNat (Nat.digitChar (n % 16)).toNat) = some n := by
  decide

theorem digitChar_ascii : ∀ n < 16, (Nat.digitChar n).toNat < 0x80 := by decide

/-- The numeric escape of a control character. -/
theorem escape_control {c : Char} (control : c.toNat < 0x20) (text : List UInt8) :
    (escape numericEscape).run (Utf8.encode ['u', '0', '0', Nat.digitChar (c.toNat / 16),
      Nat.digitChar (c.toNat % 16)] ++ text) = .ok (c, text) := by
  have unit : hexUnit.run (0x30 :: 0x30 :: UInt8.ofNat (Nat.digitChar (c.toNat / 16)).toNat
      :: UInt8.ofNat (Nat.digitChar (c.toNat % 16)).toNat :: text) = .ok (c.toNat, text) := by
    unfold hexUnit
    dsimp only
    rw [hexValue?_control c.toNat control]
  have bytes : Utf8.encode ['u', '0', '0', Nat.digitChar (c.toNat / 16),
      Nat.digitChar (c.toNat % 16)] = Ascii.lowerU :: 0x30 :: 0x30
        :: UInt8.ofNat (Nat.digitChar (c.toNat / 16)).toNat
        :: [UInt8.ofNat (Nat.digitChar (c.toNat % 16)).toNat] := by
    rw [Utf8.encode_cons, Utf8.encode_cons, Utf8.encode_cons, Utf8.encode_cons, Utf8.encode_cons,
      Utf8.utf8EncodeChar_ascii (digitChar_ascii (c.toNat / 16) (by omega)),
      Utf8.utf8EncodeChar_ascii (digitChar_ascii (c.toNat % 16) (by omega))]
    rfl
  have front (rest : List UInt8) :
      (next .string).run (Ascii.lowerU :: rest) = .ok (Ascii.lowerU, rest) := rfl
  rw [bytes, escape, List.cons_append, run_bind_ok (front _)]
  show numericEscape.run (0x30 :: 0x30 :: UInt8.ofNat (Nat.digitChar (c.toNat / 16)).toNat
    :: UInt8.ofNat (Nat.digitChar (c.toNat % 16)).toNat :: text) = _
  rw [numericEscape, run_bind_ok unit, if_neg (by omega), if_pos (by omega), Char.ofNat_toNat]
  rfl

/-- The bytes of a character that stands for itself. -/
theorem utf8EncodeChar_plain {c : Char} (quote : c ≠ '"') (backslash : c ≠ '\\')
    (printable : ¬ c.toNat < 0x20) :
    ∀ b ∈ String.utf8EncodeChar c,
      b ≠ Ascii.quote ∧ b ≠ Ascii.backslash ∧ ¬ b < Ascii.space := by
  intro b hb
  by_cases ascii : c.toNat < 0x80
  · have other {d : Char} (h : c ≠ d) : c.toNat ≠ d.toNat := fun same =>
      h (by rw [← Char.ofNat_toNat c, same, Char.ofNat_toNat])
    have not_quote := other quote
    have not_backslash := other backslash
    have byte : (UInt8.ofNat c.toNat).toNat = c.toNat :=
      UInt8.toNat_ofNat_of_lt' (Nat.lt_trans ascii (by decide))
    rw [Utf8.utf8EncodeChar_ascii ascii, List.mem_singleton] at hb
    subst hb
    refine ⟨fun h => ?_, fun h => ?_, fun h => ?_⟩
    · rw [h] at byte
      exact not_quote byte.symm
    · rw [h] at byte
      exact not_backslash byte.symm
    · rw [UInt8.lt_iff_toNat_lt, byte] at h
      exact printable h
  · have high := Utf8.le_of_mem_utf8EncodeChar (Nat.le_of_not_lt ascii) b hb
    refine ⟨?_, ?_, fun h => ?_⟩
    · rintro rfl
      exact absurd high (by decide)
    · rintro rfl
      exact absurd high (by decide)
    · exact absurd (UInt8.lt_of_le_of_lt high h) (by decide)

/-- A character is read back, however it was written. -/
theorem stringBytes_escapeChar (c : Char) (text : List UInt8) :
    stringBytes numericEscape (Utf8.encode (escapeChar c) ++ text)
      = (stringBytes numericEscape text).map fun (bytes, rest) =>
        (String.utf8EncodeChar c ++ bytes, rest) := by
  unfold escapeChar
  split
  · next h => subst h; exact stringBytes_escape rfl
  split
  · next h => subst h; exact stringBytes_escape rfl
  split
  · next h => subst h; exact stringBytes_escape rfl
  split
  · next h => subst h; exact stringBytes_escape rfl
  split
  · next h => subst h; exact stringBytes_escape rfl
  split
  · next h => subst h; exact stringBytes_escape rfl
  split
  · next h => subst h; exact stringBytes_escape rfl
  split
  · next control => exact stringBytes_escape (escape_control control text)
  · next quote backslash _ _ _ _ _ printable =>
    have single : Utf8.encode [c] = String.utf8EncodeChar c := by
      simp [Utf8.encode]
    rw [single]
    exact stringBytes_plain_append (utf8EncodeChar_plain quote backslash printable)

/-- The escaped characters of a string are read back up to the closing quote, and what stands behind
it is left. -/
theorem stringBytes_chars (chars : List Char) (rest : List UInt8) :
    stringBytes numericEscape
        (Utf8.encode (chars.flatMap escapeChar) ++ Ascii.quote :: rest)
      = .ok (Utf8.encode chars, rest) := by
  induction chars with
  | nil =>
    show stringBytes numericEscape (Ascii.quote :: rest) = .ok ([], rest)
    rw [stringBytes.eq_def]
    rfl
  | cons c chars ih =>
    rw [List.flatMap_cons, Utf8.encode_append, List.append_assoc, stringBytes_escapeChar, ih,
      Utf8.encode_cons]
    rfl

/-- A string is read back behind its opening quote. -/
theorem stringTail_chars (s : String) (rest : List UInt8) :
    stringTail.run (Utf8.encode (s.toList.flatMap escapeChar ++ ['"']) ++ rest)
      = .ok (s, rest) := by
  have closing : Utf8.encode ['"'] = [Ascii.quote] := rfl
  rw [Utf8.encode_append, closing, List.append_assoc, List.singleton_append]
  unfold stringTail
  dsimp only
  rw [stringBytes_chars]
  dsimp only
  rw [Utf8.decode?_encode, String.ofList_toList]

end DocumentBase.Json.Reader
