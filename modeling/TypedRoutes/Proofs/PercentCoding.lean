import TypedRoutes.Proofs.Segments
import TypedRoutes.Proofs.Utf8

/-!
# Percent encoding

A text is put into a path by escaping every byte but letters, digits and four marks.  The result is
one segment, and decoding this segment gives the text back.
-/

namespace TypedRoutes
namespace Text

/-- A byte that is never escaped: a letter, a digit, or one of `-`, `.`, `_` and `~`. -/
def isUnreserved (b : UInt8) : Bool :=
  (48 ≤ b && b ≤ 57) || (65 ≤ b && b ≤ 90) || (97 ≤ b && b ≤ 122) ||
    b == 45 || b == 46 || b == 95 || b == 126

/-- The hexadecimal digit of a value below 16. -/
def hexDigit (n : UInt8) : UInt8 :=
  if n < 10 then 48 + n else 55 + n

/-- A byte, or three bytes that stand for it. -/
def escapeByte (b : UInt8) : List UInt8 :=
  if isUnreserved b then [b] else [37, hexDigit (b / 16), hexDigit (b % 16)]

/-- The percent-encoded form of a text. -/
def percentEncode (s : String) : String :=
  String.ofList (((bytes s).flatMap escapeByte).map Char.ofUInt8)

/-! ## One byte -/

theorem exists_fin_eq
    {n : UInt8} {bound : Nat} (h : n.toNat < bound) : ∃ i : Fin bound, n = UInt8.ofNat i := by
  exact ⟨⟨n.toNat, h⟩, by simp⟩

theorem hexValue?_hexDigit
    {n : UInt8} (h : n.toNat < 16) : hexValue? (hexDigit n) = some n := by
  have hall : ∀ i : Fin 16, hexValue? (hexDigit (UInt8.ofNat i)) = some (UInt8.ofNat i) := by
    decide
  obtain ⟨i, rfl⟩ := exists_fin_eq h
  exact hall i

theorem isUnreserved_hexDigit
    {n : UInt8} (h : n.toNat < 16) : isUnreserved (hexDigit n) = true := by
  have hall : ∀ i : Fin 16, isUnreserved (hexDigit (UInt8.ofNat i)) = true := by
    decide
  obtain ⟨i, rfl⟩ := exists_fin_eq h
  exact hall i

theorem toNat_div_lt (b : UInt8) : (b / 16).toNat < 16 := by
  have hb : b.toNat < 256 := b.toNat_lt
  have hdiv : (b / 16).toNat = b.toNat / 16 := UInt8.toNat_div b 16
  omega

theorem toNat_mod_lt (b : UInt8) : (b % 16).toNat < 16 := by
  have hmod : (b % 16).toNat = b.toNat % 16 := UInt8.toNat_mod b 16
  omega

theorem percentDecode_cons
    {b : UInt8} (h : b ≠ 37) (rest : List UInt8) :
    percentDecode (b :: rest) = b :: percentDecode rest := by
  match rest with
  | [] => simp [percentDecode]
  | [_] => simp [percentDecode]
  | _ :: _ :: _ => simp [percentDecode, h]

/-- An escaped byte is decoded to itself. -/
theorem percentDecode_escapeByte (b : UInt8) (rest : List UInt8) :
    percentDecode (escapeByte b ++ rest) = b :: percentDecode rest := by
  cases hb : isUnreserved b with
  | true =>
      have hpercent : b ≠ 37 := by
        rintro rfl
        exact absurd hb (by decide)
      simpa [escapeByte, hb] using percentDecode_cons hpercent rest
  | false =>
      have hvalue : b / 16 * 16 + b % 16 = b := by
        apply UInt8.toNat_inj.mp
        have hlt : b.toNat < 256 := b.toNat_lt
        simp only [UInt8.toNat_add, UInt8.toNat_mul, UInt8.toNat_div, UInt8.toNat_mod,
          UInt8.reduceToNat]
        omega
      simp [escapeByte, hb, percentDecode, hexValue?_hexDigit (toNat_div_lt b),
        hexValue?_hexDigit (toNat_mod_lt b), hvalue]

theorem percentDecode_escaped (bs : List UInt8) :
    percentDecode (bs.flatMap escapeByte) = bs := by
  induction bs with
  | nil => simp [percentDecode]
  | cons b bs ih => rw [List.flatMap_cons, percentDecode_escapeByte, ih]

/-! ## A whole text -/

/-- A byte that occurs in an encoded text. -/
def isUrlByte (b : UInt8) : Bool :=
  isUnreserved b || b == 37

theorem isUrlByte_of_mem_escaped
    {bs : List UInt8} {b : UInt8} (h : b ∈ bs.flatMap escapeByte) : isUrlByte b = true := by
  obtain ⟨source, _, hb⟩ := List.mem_flatMap.mp h
  cases hsource : isUnreserved source with
  | true =>
      obtain rfl : b = source := by simpa [escapeByte, hsource] using hb
      simp [isUrlByte, hsource]
  | false =>
      have hcases : b = 37 ∨ b = hexDigit (source / 16) ∨ b = hexDigit (source % 16) := by
        simpa [escapeByte, hsource] using hb
      rcases hcases with rfl | rfl | rfl
      · rfl
      · simp [isUrlByte, isUnreserved_hexDigit (toNat_div_lt source)]
      · simp [isUrlByte, isUnreserved_hexDigit (toNat_mod_lt source)]

theorem toNat_lt_of_isUrlByte
    {b : UInt8} (h : isUrlByte b = true) : b.toNat < 128 := by
  have hall : ∀ i : Fin 256, isUrlByte (UInt8.ofNat i) = true →
      (UInt8.ofNat i).toNat < 128 := by decide +kernel
  obtain ⟨i, rfl⟩ := exists_fin_eq b.toNat_lt
  exact hall i h

theorem utf8EncodeChar_ofUInt8
    {b : UInt8} (h : b.toNat < 128) : String.utf8EncodeChar (Char.ofUInt8 b) = [b] := by
  have hvalue : (Char.ofUInt8 b).val.toNat = b.toNat := rfl
  have hle : b.toNat ≤ 0x7f := by omega
  simp only [String.utf8EncodeChar, hvalue, hle, if_true]
  simp

theorem flatMap_utf8EncodeChar_ofUInt8
    {bs : List UInt8} (h : ∀ b ∈ bs, b.toNat < 128) :
    bs.flatMap (fun b => String.utf8EncodeChar (Char.ofUInt8 b)) = bs := by
  induction bs with
  | nil => rfl
  | cons b bs ih =>
      have hb : String.utf8EncodeChar (Char.ofUInt8 b) = [b] :=
        utf8EncodeChar_ofUInt8 (h b (by simp))
      rw [List.flatMap_cons, hb, ih fun b' hb' => h b' (by simp [hb'])]
      rfl

/-- The bytes of an encoded text are the escaped bytes of the text. -/
theorem bytes_percentEncode (s : String) :
    bytes (percentEncode s) = (bytes s).flatMap escapeByte := by
  rw [bytes_eq (percentEncode s), percentEncode, String.toList_ofList, List.flatMap_map]
  apply flatMap_utf8EncodeChar_ofUInt8
  intro b hb
  exact toNat_lt_of_isUrlByte (isUrlByte_of_mem_escaped hb)

theorem percentEncode_ne_empty
    {s : String} (h : s ≠ "") : percentEncode s ≠ "" := by
  intro hempty
  have hescaped : (bytes s).flatMap escapeByte = [] := by
    rw [← bytes_percentEncode, hempty, bytes_eq]
    rfl
  have hbytes := percentDecode_escaped (bytes s)
  rw [hescaped] at hbytes
  exact bytes_ne_nil h hbytes.symm

theorem slash_not_mem_percentEncode (s : String) : '/' ∉ (percentEncode s).toList := by
  rw [percentEncode, String.toList_ofList]
  intro hmem
  obtain ⟨b, hb, hslash⟩ := List.mem_map.mp hmem
  have hurl := isUrlByte_of_mem_escaped hb
  have hvalue : b.toNat = 47 := congrArg (fun c : Char => c.val.toNat) hslash
  obtain rfl : b = 47 := UInt8.toNat_inj.mp hvalue
  exact absurd hurl (by decide)

end Text

/-- An encoded text is a segment, unless there is nothing to encode. -/
theorem Path.isSegment_percentEncode
    {s : String} (h : s ≠ "") : Path.IsSegment (Text.percentEncode s) :=
  ⟨Text.percentEncode_ne_empty h, Text.slash_not_mem_percentEncode s⟩

/-- Decoding a segment undoes encoding. -/
theorem Pattern.decodeSegment_percentEncode (s : String) :
    Pattern.decodeSegment (Text.percentEncode s) = s := by
  rw [decodeSegment, Text.bytes_percentEncode, Text.percentDecode_escaped, Text.ofBytes?_bytes]
  rfl

end TypedRoutes
