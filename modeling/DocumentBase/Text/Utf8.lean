/-!
# DocumentBase.Text.Utf8

Texts as bytes: encoding the characters of a text in UTF-8 and decoding bytes that are valid.
Main statement: decoding what was encoded gives the text back.
-/

namespace DocumentBase.Utf8

/-- The UTF-8 encoding of some characters. -/
def encode (chars : List Char) : List UInt8 := chars.flatMap String.utf8EncodeChar

/-- The text that the bytes encode, if they are valid UTF-8. -/
def decode? (bytes : List UInt8) : Option String := String.fromUTF8? bytes.toByteArray

/-- The encoding of a text is made character by character, so it can be cut between any two. -/
@[simp] theorem encode_append (front back : List Char) :
    encode (front ++ back) = encode front ++ encode back := by
  simp [encode]

@[simp] theorem encode_cons (c : Char) (chars : List Char) :
    encode (c :: chars) = String.utf8EncodeChar c ++ encode chars := by
  simp [encode]

/-- A character of ASCII is its own byte. -/
theorem utf8EncodeChar_ascii {c : Char} (h : c.toNat < 0x80) :
    String.utf8EncodeChar c = [UInt8.ofNat c.toNat] := by
  have small : c.val.toNat ≤ 0x7f := Nat.le_of_lt_succ h
  simp only [String.utf8EncodeChar, if_pos small]
  rfl

/-- No byte of another character is one of ASCII. -/
theorem le_of_mem_utf8EncodeChar {c : Char} (h : 0x80 ≤ c.toNat) :
    ∀ b ∈ String.utf8EncodeChar c, 0x80 ≤ b := by
  have large : ¬ c.val.toNat ≤ 0x7f := Nat.not_le_of_lt h
  have byte (n : Nat) (low : 0x80 ≤ n) (high : n < 0x100) : (0x80 : UInt8) ≤ UInt8.ofNat n := by
    rw [UInt8.le_iff_toNat_le, UInt8.toNat_ofNat_of_lt' high]
    exact low
  simp only [String.utf8EncodeChar, if_neg large]
  split
  · simp only [List.forall_mem_cons]
    exact ⟨byte _ (by omega) (by omega), byte _ (by omega) (by omega), by simp⟩
  · split
    · simp only [List.forall_mem_cons]
      exact ⟨byte _ (by omega) (by omega), byte _ (by omega) (by omega),
        byte _ (by omega) (by omega), by simp⟩
    · simp only [List.forall_mem_cons]
      exact ⟨byte _ (by omega) (by omega), byte _ (by omega) (by omega),
        byte _ (by omega) (by omega), byte _ (by omega) (by omega), by simp⟩

/-- Decoding what was encoded gives the text back. -/
@[simp] theorem decode?_encode (chars : List Char) :
    decode? (encode chars) = some (String.ofList chars) := by
  have h : (encode chars).toByteArray = (String.ofList chars).toByteArray := by
    rw [String.toByteArray_ofList]
    rfl
  unfold decode? String.fromUTF8?
  simp only [h]
  rw [dif_pos (String.ofList chars).isValidUTF8]
  rfl

end DocumentBase.Utf8
