import Mathlib.Algebra.Group.Nat.Defs
import Mathlib.Data.List.DropRight
import TypedRoutes.Calendar.Moment
import TypedRoutes.Text.Numeral

/-!
# Numbers in decimal

Digits denote a number, with or without leading zeros.  The readers of numerals and of time texts
read back what is written: an integer from its text, and a padded number from the beginning of a
text, where it ends at its width or before a character that is no digit.
-/

namespace TypedRoutes

/-! ## Texts without blanks -/

namespace Text

variable {p : Char → Bool} {cs : List Char}

theorem strip_of_forall (h : ∀ c ∈ cs, p c = false) : strip p cs = cs := by
  have hfront : cs.dropWhile p = cs := by
    cases cs with
    | nil => rfl
    | cons c rest => simp [h c (by simp)]
  have hback : cs.reverse.dropWhile p = cs.reverse := by
    cases hcs : cs.reverse with
    | nil => rfl
    | cons c rest =>
        have hmem : c ∈ cs := List.mem_reverse.mp (by simp [hcs])
        simp [h c hmem]
  rw [strip, hfront, hback, List.reverse_reverse]

/-- Stripping is done once and for all. -/
theorem strip_strip (p : Char → Bool) (cs : List Char) : strip p (strip p cs) = strip p cs := by
  have hfront : (strip p cs).dropWhile p = strip p cs := by
    have hleading : strip p cs <+: cs.dropWhile p := List.rdropWhile_prefix p _
    rw [List.dropWhile_eq_self_iff]
    intro hlength
    have hhead := List.dropWhile_get_zero_not p cs (hleading.length_le.trans_lt' hlength)
    simpa [hleading.getElem hlength] using hhead
  have hback : ((strip p cs).reverse.dropWhile p).reverse = strip p cs :=
    List.rdropWhile_idempotent p _
  conv_lhs => rw [strip, hfront, hback]

theorem isBlank_of_isDigit {c : Char} (h : c.isDigit = true) : isBlank c = false := by
  simp only [Char.isDigit, Bool.and_eq_true, decide_eq_true_eq, ge_iff_le, UInt32.le_iff_toNat_le]
    at h
  have hlow : 48 ≤ c.toNat := h.1
  have hhigh : c.toNat ≤ 57 := h.2
  simp only [isBlank, Bool.or_eq_false_iff, Bool.and_eq_false_iff, decide_eq_false_iff_not,
    beq_eq_false_iff_ne]
  omega

end Text

/-! ## Digits -/

/-- Digits that denote a number. -/
structure Denotes (digits : List Char) (n : Nat) : Prop where
  ne_nil : digits ≠ []
  isDigit : ∀ c ∈ digits, c.isDigit = true
  value : Nat.ofDigitChars 10 digits 0 = n

variable {digits rest : List Char} {n : Nat}

theorem denotes_toDigits (n : Nat) : Denotes (Nat.toDigits 10 n) n where
  ne_nil := Nat.toDigits_ne_nil
  isDigit := fun _ hc => Nat.isDigit_of_mem_toDigits (by decide) (by decide) hc
  value := Nat.ofDigitChars_ten_toDigits

theorem toList_padded
    (width n : Nat) :
    (Moment.padded width n).toList =
      List.replicate (width - (Nat.toDigits 10 n).length) '0' ++ Nat.toDigits 10 n :=
  String.toList_ofList

theorem denotes_padded (width n : Nat) : Denotes (Moment.padded width n).toList n := by
  obtain ⟨hne, hdigits, hvalue⟩ := denotes_toDigits n
  rw [toList_padded]
  refine ⟨by simp [hne], ?_, ?_⟩
  · intro c hc
    rcases List.mem_append.mp hc with hc | hc
    · rw [List.eq_of_mem_replicate hc]
      rfl
    · exact hdigits c hc
  · rw [Nat.ofDigitChars_append, Nat.ofDigitChars_replicate_zero, Nat.mul_zero, hvalue]

theorem length_padded
    {width : Nat} (hwidth : 0 < width) (hn : n < 10 ^ width) :
    (Moment.padded width n).toList.length = width := by
  have hle := (Nat.length_toDigits_le_iff (by decide : 1 < 10) hwidth).mpr hn
  rw [toList_padded, List.length_append, List.length_replicate]
  omega

theorem Denotes.lt (h : Denotes digits n) : n < 10 ^ digits.length := by
  obtain ⟨-, hdigits, rfl⟩ := h
  induction digits with
  | nil => simp
  | cons c rest ih =>
      have hc := hdigits c (by simp)
      simp only [Char.isDigit, Bool.and_eq_true, decide_eq_true_eq, ge_iff_le,
        UInt32.le_iff_toNat_le] at hc
      have hhigh : c.toNat ≤ 57 := hc.2
      have hrest := ih fun d hd => hdigits d (by simp [hd])
      have hzero : '0'.toNat = 48 := rfl
      rw [Nat.ofDigitChars_cons, Nat.ofDigitChars_eq_ofDigitChars_zero, List.length_cons, hzero]
      have hle : 10 ^ rest.length * (10 * 0 + (c.toNat - 48)) ≤ 10 ^ rest.length * 9 :=
        Nat.mul_le_mul_left _ (by omega)
      rw [Nat.pow_succ]
      omega

theorem foldl_digits
    (cs : List Char) (start : Nat) :
    cs.foldl (fun n c => n * 10 + (c.toNat - '0'.toNat)) start = Nat.ofDigitChars 10 cs start := by
  rw [Nat.ofDigitChars_eq_foldl]
  congr 1
  funext n c
  rw [Nat.mul_comm]

/-! ## Reading a number off the beginning of a text -/

namespace Moment

/-- The digits that a number is read from: those at the beginning, as many as are admitted. -/
def leadingDigits (most : Option Nat) (cs : List Char) : List Char :=
  match most with
  | some k => (cs.takeWhile Char.isDigit).take k
  | none => cs.takeWhile Char.isDigit

theorem takeNumber?_eq
    (least : Nat) (most : Option Nat) (cs : List Char) :
    takeNumber? least most cs =
      if (leadingDigits most cs).length < least ∨ (leadingDigits most cs).isEmpty then none
      else some (Nat.ofDigitChars 10 (leadingDigits most cs) 0,
        cs.drop (leadingDigits most cs).length) := by
  rw [← foldl_digits]
  rfl

theorem leadingDigits_prefix
    (most : Option Nat) (cs : List Char) : leadingDigits most cs <+: cs.takeWhile Char.isDigit := by
  cases most with
  | none => exact List.prefix_rfl
  | some k => exact List.take_prefix k _

theorem takeNumber?_of_leadingDigits
    {least : Nat} {most : Option Nat} (h : Denotes digits n) (hleast : least ≤ digits.length)
    (hrun : leadingDigits most (digits ++ rest) = digits) :
    takeNumber? least most (digits ++ rest) = some (n, rest) := by
  have hread : ¬(digits.length < least ∨ digits.isEmpty = true) := by
    simp [h.ne_nil, hleast]
  rw [takeNumber?_eq, hrun, if_neg hread, h.value, List.drop_left]

/-- A text that goes on with something else than a digit. -/
def EndsNumber (rest : List Char) : Prop :=
  ∀ c ∈ rest.head?, c.isDigit = false

theorem takeWhile_of_endsNumber (h : EndsNumber rest) : rest.takeWhile Char.isDigit = [] := by
  cases rest with
  | nil => rfl
  | cons c rest => simp [h c rfl]

/-- Digits of a given number are read off whatever follows. -/
theorem takeNumber?_of_length
    {least width : Nat} (h : Denotes digits n) (hwidth : digits.length = width)
    (hleast : least ≤ width) (rest : List Char) :
    takeNumber? least (some width) (digits ++ rest) = some (n, rest) := by
  apply takeNumber?_of_leadingDigits h (by omega)
  rw [leadingDigits, List.takeWhile_append_of_pos h.isDigit, ← hwidth, List.take_left]

/-- Digits are read off what does not go on with a digit. -/
theorem takeNumber?_of_endsNumber
    {least : Nat} {most : Option Nat} (h : Denotes digits n) (hleast : least ≤ digits.length)
    (hmost : ∀ k ∈ most, digits.length ≤ k) (hrest : EndsNumber rest) :
    takeNumber? least most (digits ++ rest) = some (n, rest) := by
  apply takeNumber?_of_leadingDigits h hleast
  have hrun : (digits ++ rest).takeWhile Char.isDigit = digits := by
    rw [List.takeWhile_append_of_pos h.isDigit, takeWhile_of_endsNumber hrest, List.append_nil]
  cases most with
  | none => exact hrun
  | some k => rw [leadingDigits, hrun, List.take_of_length_le (hmost k rfl)]

/-- A number that is read off a text is denoted by its first characters. -/
theorem exists_of_takeNumber?
    {least : Nat} {most : Option Nat} {cs : List Char}
    (h : takeNumber? least most cs = some (n, rest)) :
    ∃ digits, cs = digits ++ rest ∧ Denotes digits n ∧ least ≤ digits.length ∧
      ∀ k ∈ most, digits.length ≤ k := by
  have hleading := leadingDigits_prefix most cs
  have hmost : ∀ k ∈ most, (leadingDigits most cs).length ≤ k := by
    rintro k rfl
    exact List.length_take_le k _
  rw [takeNumber?_eq] at h
  generalize leadingDigits most cs = digits at hleading hmost h
  split at h
  · cases h
  · rename_i hread
    obtain ⟨hleast, hne⟩ := not_or.mp hread
    obtain ⟨rfl, rfl⟩ := Prod.mk.inj (Option.some.inj h)
    obtain ⟨rest, hrest⟩ := hleading.trans (List.takeWhile_prefix _)
    refine ⟨digits, ?_, ⟨by simpa using hne, ?_, rfl⟩, by omega, hmost⟩
    · rw [← hrest, List.drop_left]
    · intro c hc
      exact List.mem_takeWhile_imp (hleading.subset hc)

end Moment

/-! ## Integers -/

namespace Numeral

theorem decimalDigit?_of_isDigit
    {c : Char} (h : c.isDigit = true) : decimalDigit? c = some (c.toNat - '0'.toNat) := by
  rw [decimalDigit?, if_pos h]

theorem digits?_of_denotes (h : Denotes digits n) : digits? decimalDigit? 10 digits = some n := by
  have hmapM : ∀ cs : List Char, (∀ c ∈ cs, c.isDigit = true) →
      cs.mapM decimalDigit? = some (cs.map fun c => c.toNat - '0'.toNat) := by
    intro cs hcs
    induction cs with
    | nil => rfl
    | cons c rest ih =>
        rw [List.mapM_cons, decimalDigit?_of_isDigit (hcs c (by simp)),
          ih fun d hd => hcs d (by simp [hd])]
        rfl
  have hne : digits.isEmpty = false := by simp [h.ne_nil]
  rw [digits?, hne, hmapM digits h.isDigit, ← h.value, ← foldl_digits]
  simp [List.foldl_map]

theorem nat?_of_denotes (h : Denotes digits n) : nat? decimalDigit? 10 digits = some n := by
  unfold nat?
  split
  · have hplus : '+'.isDigit = true := h.isDigit _ (by simp)
    cases hplus
  · exact digits?_of_denotes h

/-- An integer is read back from its text. -/
theorem int?_toString (n : Int) : int? (toString n).toList = some n := by
  rw [Int.toString_eq_repr, Int.repr_eq_if]
  have hdigits := denotes_toDigits n.toNat
  split
  · rename_i hn
    rw [Nat.toList_repr]
    unfold int?
    split
    · rename_i cs hcs
      have hminus : '-'.isDigit = true := hdigits.isDigit _ (by simp [hcs])
      cases hminus
    · rw [nat?_of_denotes hdigits]
      show some ((n.toNat : Nat) : Int) = some n
      rw [Int.toNat_of_nonneg hn]
  · rw [String.toList_append, Nat.toList_repr]
    have hread := digits?_of_denotes (denotes_toDigits (-n).toNat)
    show Option.map _ (digits? decimalDigit? 10 (Nat.toDigits 10 (-n).toNat) >>= _) = some n
    rw [hread]
    show some (-((-n).toNat : Int)) = some n
    congr 1
    omega

theorem not_isBlank_of_mem_toString
    {n : Int} {c : Char} (hc : c ∈ (toString n).toList) : Text.isBlank c = false := by
  have hdigits : ∀ k : Nat, c ∈ Nat.toDigits 10 k → Text.isBlank c = false :=
    fun k hk => Text.isBlank_of_isDigit ((denotes_toDigits k).isDigit c hk)
  rw [Int.toString_eq_repr, Int.repr_eq_if] at hc
  split at hc
  · rw [Nat.toList_repr] at hc
    exact hdigits _ hc
  · rw [String.toList_append, Nat.toList_repr] at hc
    rcases List.mem_append.mp hc with hc | hc
    · obtain rfl : c = '-' := by simpa using hc
      rfl
    · exact hdigits _ hc

end Numeral
end TypedRoutes
