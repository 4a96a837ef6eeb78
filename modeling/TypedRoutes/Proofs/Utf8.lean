import TypedRoutes.Text.Utf8

/-!
# Reading back the bytes of a text

The bytes of a text are the UTF-8 forms of its characters, one after the other.  The reader gets
each character back from its form, whatever follows, and so the text from its bytes.
-/

namespace TypedRoutes
namespace Text
namespace Utf8

variable {rest : List UInt8}

theorem toNat_byte {n : Nat} (h : n < 256) : (UInt8.ofNat n).toNat = n := by
  rw [UInt8.toNat_ofNat', Nat.mod_eq_of_lt h]

/-! ## Single bytes -/

theorem parts_first
    {b : UInt8} {p : Pending} (h : start b = .begins p) :
    parts none (b :: rest) = parts (some p) rest := by
  simp [parts, h]

theorem parts_next
    {n owed low high bits : Nat} (hn : n < 256) (howed : 1 < owed) (hlow : low ≤ n)
    (hhigh : n ≤ high) :
    parts (some ⟨owed, low, high, bits⟩) (UInt8.ofNat n :: rest) =
      parts (some ⟨owed - 1, 0x80, 0xBF, bits * 64 + (n - 0x80)⟩) rest := by
  have howed' : ¬owed ≤ 1 := by omega
  simp only [parts, toNat_byte hn, hlow, hhigh, and_self, if_true, howed', if_false]

theorem parts_last
    {n low high bits : Nat} (hn : n < 256) (hlow : low ≤ n) (hhigh : n ≤ high) :
    parts (some ⟨1, low, high, bits⟩) (UInt8.ofNat n :: rest) =
      .char (Char.ofNat (bits * 64 + (n - 0x80))) :: parts none rest := by
  simp only [parts, toNat_byte hn, hlow, hhigh, and_self, if_true, Nat.le_refl]

/-! ## Forms of two, three and four bytes

The first byte bounds the second so that no overlong form, no surrogate and nothing beyond the last
code point is read.  The forms of characters keep within these bounds. -/

theorem start_two
    {v : Nat} (hlow : 0x7f < v) (hhigh : v ≤ 0x7ff) :
    start (UInt8.ofNat (v / 64 % 0x20 + 0xc0)) = .begins ⟨1, 0x80, 0xBF, v / 64⟩ := by
  have hbyte : v / 64 % 0x20 + 0xc0 = v / 64 + 0xc0 := by omega
  have hlt : v / 64 + 0xc0 < 256 := by omega
  have h1 : ¬v / 64 + 0xc0 < 0x80 := by omega
  have h2 : 0xC2 ≤ v / 64 + 0xc0 ∧ v / 64 + 0xc0 ≤ 0xDF := by omega
  have hbits : v / 64 + 0xc0 - 0xC0 = v / 64 := by omega
  rw [hbyte]
  simp only [start, toNat_byte hlt, h1, h2, hbits, and_self, if_false, if_true]

theorem start_three
    {v : Nat} (hlow : 0x7ff < v) (hhigh : v ≤ 0xffff) (hvalid : v < 0xD800 ∨ 0xDFFF < v) :
    ∃ low high, start (UInt8.ofNat (v / 4096 % 0x10 + 0xe0)) = .begins ⟨2, low, high, v / 4096⟩ ∧
      low ≤ v / 64 % 0x40 + 0x80 ∧ v / 64 % 0x40 + 0x80 ≤ high := by
  have hbyte : v / 4096 % 0x10 + 0xe0 = v / 4096 + 0xe0 := by omega
  have hlt : v / 4096 + 0xe0 < 256 := by omega
  have h1 : ¬v / 4096 + 0xe0 < 0x80 := by omega
  have h2 : ¬(0xC2 ≤ v / 4096 + 0xe0 ∧ v / 4096 + 0xe0 ≤ 0xDF) := by omega
  rw [hbyte]
  simp only [start, toNat_byte hlt, h1, h2, if_false]
  by_cases hzero : v / 4096 = 0
  · exact ⟨0xA0, 0xBF, by simp [hzero], by omega, by omega⟩
  · have h3 : v / 4096 + 0xe0 ≠ 0xE0 := by omega
    by_cases hsurrogates : v / 4096 = 0xD
    · exact ⟨0x80, 0x9F, by simp [hsurrogates], by omega, by omega⟩
    · have h4 : v / 4096 + 0xe0 ≠ 0xED := by omega
      have h5 : 0xE1 ≤ v / 4096 + 0xe0 ∧ v / 4096 + 0xe0 ≤ 0xEF := by omega
      have hbits : v / 4096 + 0xe0 - 0xE0 = v / 4096 := by omega
      refine ⟨0x80, 0xBF, ?_, by omega, by omega⟩
      simp only [h3, h4, h5, hbits, and_self, if_false, if_true]

theorem start_four
    {v : Nat} (hlow : 0xffff < v) (hhigh : v < 0x110000) :
    ∃ low high,
      start (UInt8.ofNat (v / 262144 % 0x08 + 0xf0)) = .begins ⟨3, low, high, v / 262144⟩ ∧
        low ≤ v / 4096 % 0x40 + 0x80 ∧ v / 4096 % 0x40 + 0x80 ≤ high := by
  have hbyte : v / 262144 % 0x08 + 0xf0 = v / 262144 + 0xf0 := by omega
  have hcases : v / 262144 = 0 ∨ v / 262144 = 1 ∨ v / 262144 = 2 ∨ v / 262144 = 3 ∨
      v / 262144 = 4 := by omega
  rw [hbyte]
  rcases hcases with h | h | h | h | h
  · exact ⟨0x90, 0xBF, by rw [h]; rfl, by omega, by omega⟩
  · exact ⟨0x80, 0xBF, by rw [h]; rfl, by omega, by omega⟩
  · exact ⟨0x80, 0xBF, by rw [h]; rfl, by omega, by omega⟩
  · exact ⟨0x80, 0xBF, by rw [h]; rfl, by omega, by omega⟩
  · exact ⟨0x80, 0x8F, by rw [h]; rfl, by omega, by omega⟩

theorem parts_two
    {v : Nat} (hlow : 0x7f < v) (hhigh : v ≤ 0x7ff) :
    parts none (UInt8.ofNat (v / 64 % 0x20 + 0xc0) :: UInt8.ofNat (v % 0x40 + 0x80) :: rest) =
      .char (Char.ofNat v) :: parts none rest := by
  have hv : v / 64 * 64 + (v % 0x40 + 0x80 - 0x80) = v := by omega
  rw [parts_first (start_two hlow hhigh), parts_last (by omega) (by omega) (by omega), hv]

theorem parts_three
    {v : Nat} (hlow : 0x7ff < v) (hhigh : v ≤ 0xffff) (hvalid : v < 0xD800 ∨ 0xDFFF < v) :
    parts none (UInt8.ofNat (v / 4096 % 0x10 + 0xe0) :: UInt8.ofNat (v / 64 % 0x40 + 0x80) ::
        UInt8.ofNat (v % 0x40 + 0x80) :: rest) =
      .char (Char.ofNat v) :: parts none rest := by
  obtain ⟨low, high, hstart, hsecond, hsecond'⟩ := start_three hlow hhigh hvalid
  have hv : (v / 4096 * 64 + (v / 64 % 0x40 + 0x80 - 0x80)) * 64 +
      (v % 0x40 + 0x80 - 0x80) = v := by omega
  rw [parts_first hstart, parts_next (by omega) (by omega) hsecond hsecond',
    parts_last (by omega) (by omega) (by omega), hv]

theorem parts_four
    {v : Nat} (hlow : 0xffff < v) (hhigh : v < 0x110000) :
    parts none (UInt8.ofNat (v / 262144 % 0x08 + 0xf0) :: UInt8.ofNat (v / 4096 % 0x40 + 0x80) ::
        UInt8.ofNat (v / 64 % 0x40 + 0x80) :: UInt8.ofNat (v % 0x40 + 0x80) :: rest) =
      .char (Char.ofNat v) :: parts none rest := by
  obtain ⟨low, high, hstart, hsecond, hsecond'⟩ := start_four hlow hhigh
  have hv : ((v / 262144 * 64 + (v / 4096 % 0x40 + 0x80 - 0x80)) * 64 +
      (v / 64 % 0x40 + 0x80 - 0x80)) * 64 + (v % 0x40 + 0x80 - 0x80) = v := by omega
  rw [parts_first hstart, parts_next (by omega) (by omega) hsecond hsecond',
    parts_next (by omega) (by omega) (by omega) (by omega),
    parts_last (by omega) (by omega) (by omega), hv]

/-- The form of a character is read as this character. -/
theorem parts_utf8EncodeChar (c : Char) (rest : List UInt8) :
    parts none (String.utf8EncodeChar c ++ rest) = .char c :: parts none rest := by
  have hchar : Char.ofNat c.val.toNat = c := Char.ofNat_toNat c
  have hvalid : c.val.toNat < 0xD800 ∨ 0xDFFF < c.val.toNat ∧ c.val.toNat < 0x110000 := c.valid
  by_cases h1 : c.val.toNat ≤ 0x7f
  · have hlt : c.val.toNat < 0x80 := by omega
    have hbyte : c.val.toNat < 256 := by omega
    simp only [String.utf8EncodeChar, h1, if_true, List.cons_append, List.nil_append, parts, start,
      toNat_byte hbyte, hlt, hchar]
  · by_cases h2 : c.val.toNat ≤ 0x7ff
    · simp only [String.utf8EncodeChar, h1, h2, if_true, if_false, List.cons_append,
        List.nil_append]
      rw [parts_two (by omega) h2, hchar]
    · by_cases h3 : c.val.toNat ≤ 0xffff
      · simp only [String.utf8EncodeChar, h1, h2, h3, if_true, if_false, List.cons_append,
          List.nil_append]
        rw [parts_three (by omega) h3 (by omega), hchar]
      · simp only [String.utf8EncodeChar, h1, h2, h3, if_false, List.cons_append,
          List.nil_append]
        rw [parts_four (by omega) (by omega), hchar]

theorem parts_encoded (cs : List Char) :
    parts none (cs.flatMap String.utf8EncodeChar) = cs.map .char := by
  induction cs with
  | nil => rfl
  | cons c cs ih =>
      rw [List.flatMap_cons, parts_utf8EncodeChar, ih]
      rfl

end Utf8

/-! ## Whole texts -/

theorem toList_loop_data (bs : ByteArray) (i : Nat) (read : List UInt8) :
    ByteArray.toList.loop bs i read = read.reverse ++ bs.data.toList.drop i := by
  fun_induction ByteArray.toList.loop bs i read with
  | case1 i read h ih =>
      have hi : i < bs.data.toList.length := by simpa using h
      rw [ih, List.drop_eq_getElem_cons hi]
      simp [ByteArray.get!, h]
  | case2 i read h =>
      have hi : bs.data.toList.length ≤ i := by simpa using h
      simp [List.drop_eq_nil_of_le hi]

/-- The bytes of a text are the forms of its characters. -/
theorem bytes_eq (s : String) : bytes s = s.toList.flatMap String.utf8EncodeChar := by
  rw [bytes, String.toUTF8_eq_toByteArray, ByteArray.toList, toList_loop_data,
    ← String.utf8Encode_toList, List.utf8Encode, List.toList_data_toByteArray]
  rfl

theorem bytes_ne_nil {s : String} (h : s ≠ "") : bytes s ≠ [] := by
  have hchars : s.toList ≠ [] := by simpa using h
  rw [bytes_eq]
  intro hnil
  obtain ⟨c, cs, hcons⟩ := List.exists_cons_of_ne_nil hchars
  have hform : String.utf8EncodeChar c = [] := by
    rw [hcons, List.flatMap_cons] at hnil
    exact (List.append_eq_nil_iff.mp hnil).1
  have hlength := String.length_utf8EncodeChar c
  rw [hform] at hlength
  exact absurd hlength.symm (Nat.ne_of_gt c.utf8Size_pos)

/-- A text is read back from its bytes. -/
theorem ofBytes?_bytes (s : String) : ofBytes? (bytes s) = some s := by
  have hchars : ∀ cs : List Char, (cs.map Utf8.Part.char).mapM Utf8.Part.char? = some cs := by
    intro cs
    induction cs with
    | nil => rfl
    | cons c cs ih => simp [List.mapM_cons, Utf8.Part.char?, ih]
  rw [ofBytes?, bytes_eq, Utf8.parts_encoded, hchars]
  simp

end Text
end TypedRoutes
