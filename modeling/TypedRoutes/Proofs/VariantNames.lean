import Mathlib.Data.List.Basic
import TypedRoutes.Declaration.NameStyle

/-!
# Variant names on the wire

On ASCII characters the case tables are ASCII case.  So the name of a variant that is an ASCII
identifier in Pascal case is read back from its snake case: the letters that begin a word there are
the upper-case ones of the name.  The other styles that keep the words apart only exchange the
characters of the snake case, so in none of these styles two such variants have one name.
-/

namespace TypedRoutes

/-! ## Letter case in ASCII -/

namespace Casing

variable {c d : Char} {run : CaseRun} {runs : List CaseRun}

/-- A run that starts beyond ASCII has no ASCII character. -/
theorem not_contains_of_ascii (hrun : 128 ≤ run.first) (hc : c.toNat < 128) :
    run.contains c.toNat = false := by
  have hfirst : ¬run.first ≤ c.toNat := by omega
  simp [CaseRun.contains, hfirst]

/-- On ASCII a table is decided by its first run if all the others start beyond ASCII. -/
theorem formBy_of_ascii (hruns : ∀ r ∈ runs, 128 ≤ r.first) (hc : c.toNat < 128) :
    formBy (run :: runs) c =
      if run.contains c.toNat then Char.ofNat (c.toNat + run.distance).toNat else c := by
  have hrest : (runs.find? fun r => r.contains c.toNat) = none := by
    rw [List.find?_eq_none]
    intro r hr
    simp [not_contains_of_ascii (hruns r hr) hc]
  rw [formBy, List.find?_cons, hrest]
  cases run.contains c.toNat <;> rfl

set_option maxRecDepth 2048 in
/-- The table of upper-case characters has one run in ASCII, its first. -/
theorem le_first_of_mem_tail_upperCharacters :
    ∀ r ∈ upperCharacters.tail, 128 ≤ r.first := by decide

set_option maxRecDepth 2048 in
theorem le_first_of_mem_tail_upperRuns : ∀ r ∈ upperRuns.tail, 128 ≤ r.first := by decide

theorem exists_ofNat_of_ascii (hc : c.toNat < 128) : ∃ n < 128, Char.ofNat n = c :=
  ⟨c.toNat, hc, Char.ofNat_toNat c⟩

theorem isUpper_of_ascii (hc : c.toNat < 128) : isUpper c = c.isUpper := by
  have hrest : (upperCharacters.tail.any fun r => r.contains c.toNat) = false := by
    rw [List.any_eq_false]
    intro r hr
    simp [not_contains_of_ascii (le_first_of_mem_tail_upperCharacters r hr) hc]
  have hhead : upperCharacters = ⟨0x41, 0x5A, 1, 0⟩ :: upperCharacters.tail := rfl
  have hcontains : ∀ n < 128, CaseRun.contains ⟨0x41, 0x5A, 1, 0⟩ (Char.ofNat n).toNat =
      (Char.ofNat n).isUpper := by decide
  rw [isUpper, hhead, List.any_cons, hrest, Bool.or_false]
  obtain ⟨n, hn, rfl⟩ := exists_ofNat_of_ascii hc
  exact hcontains n hn

theorem upper_of_ascii (hc : c.toNat < 128) : upper c = [c.toUpper] := by
  have hexpansions : ∀ entry ∈ upperExpansions, 128 ≤ entry.1 := by decide
  have hlookup : upperExpansions.lookup c.toNat = none := by
    rw [List.lookup_eq_none_iff]
    intro entry hentry
    have hlarge := hexpansions entry hentry
    exact bne_iff_ne.mpr (by omega)
  have hhead : upperRuns = ⟨0x61, 0x7A, 1, -32⟩ :: upperRuns.tail := rfl
  have hshifted : ∀ n < 128,
      (if CaseRun.contains ⟨0x61, 0x7A, 1, -32⟩ (Char.ofNat n).toNat then
        Char.ofNat (((Char.ofNat n).toNat : Int) + -32).toNat else Char.ofNat n) =
        (Char.ofNat n).toUpper := by decide
  have hform : formBy upperRuns c = c.toUpper := by
    rw [hhead, formBy_of_ascii le_first_of_mem_tail_upperRuns hc]
    obtain ⟨n, hn, rfl⟩ := exists_ofNat_of_ascii hc
    exact hshifted n hn
  rw [upper, hlookup, hform]

theorem toNat_lt_of_isAlphanum (h : c.isAlphanum = true) : c.toNat < 128 := by
  have hle : c.val ≤ 'z'.val := by
    rcases Bool.or_eq_true_iff.mp h with halpha | hdigit
    · rcases Bool.or_eq_true_iff.mp halpha with hupper | hlower
      · exact UInt32.le_trans (of_decide_eq_true hupper).2 (by decide)
      · exact of_decide_eq_true (Bool.and_eq_true_iff.mp hlower).2
    · exact UInt32.le_trans (of_decide_eq_true (Bool.and_eq_true_iff.mp hdigit).2) (by decide)
  exact Nat.lt_of_le_of_lt (UInt32.le_iff_toNat_le.mp hle) (by decide)

theorem isAlphanum_of_isAlpha (h : c.isAlpha = true) : c.isAlphanum = true :=
  Bool.or_eq_true_iff.mpr (.inl h)

theorem isAlphanum_of_isUpper (h : c.isUpper = true) : c.isAlphanum = true :=
  isAlphanum_of_isAlpha (Bool.or_eq_true_iff.mpr (.inl h))

theorem isAlphanum_toLower (h : c.isAlphanum = true) : c.toLower.isAlphanum = true := by
  have hkept : ∀ n < 128, (Char.ofNat n).isAlphanum = true →
      (Char.ofNat n).toLower.isAlphanum = true := by decide
  obtain ⟨n, hn, rfl⟩ := exists_ofNat_of_ascii (toNat_lt_of_isAlphanum h)
  exact hkept n hn h

theorem toLower_toLower (h : c.isAlphanum = true) : c.toLower.toLower = c.toLower := by
  have hkept : ∀ n < 128, (Char.ofNat n).toLower.toLower = (Char.ofNat n).toLower := by decide
  obtain ⟨n, hn, rfl⟩ := exists_ofNat_of_ascii (toNat_lt_of_isAlphanum h)
  exact hkept n hn

theorem toLower_of_not_isUpper (h : c.isAlphanum = true) (hc : ¬c.isUpper = true) :
    c.toLower = c := by
  have hkept : ∀ n < 128, ¬(Char.ofNat n).isUpper = true →
      (Char.ofNat n).toLower = Char.ofNat n := by decide
  obtain ⟨n, hn, rfl⟩ := exists_ofNat_of_ascii (toNat_lt_of_isAlphanum h)
  exact hkept n hn hc

theorem ne_of_isAlphanum (h : c.isAlphanum = true) (hd : d.isAlphanum = false) : c ≠ d := by
  rintro rfl
  simp [h] at hd

/-- A word whose first letter was put into lower case is given it back. -/
theorem upperFirst_toLower (hc : c.isUpper = true) (word : List Char) :
    upperFirst (c.toLower :: word) = c :: word := by
  have hlower : c.toLower.isAlphanum = true := isAlphanum_toLower (isAlphanum_of_isUpper hc)
  have hupper : ∀ n < 128, (Char.ofNat n).isUpper = true →
      (Char.ofNat n).toLower.toUpper = Char.ofNat n := by decide
  have hback : c.toLower.toUpper = c := by
    obtain ⟨n, hn, rfl⟩ :=
      exists_ofNat_of_ascii (toNat_lt_of_isAlphanum (isAlphanum_of_isUpper hc))
    exact hupper n hn hc
  rw [upperFirst, upper_of_ascii (toNat_lt_of_isAlphanum hlower), hback, List.singleton_append]

end Casing

namespace Text

theorem pieces_cons_self (separator : Char) (cs : List Char) :
    pieces separator (separator :: cs) = [] :: pieces separator cs := by
  simp [pieces]

theorem pieces_cons_of_ne
    {separator c : Char} {cs piece : List Char} {others : List (List Char)} (hc : c ≠ separator)
    (h : pieces separator cs = piece :: others) :
    pieces separator (c :: cs) = (c :: piece) :: others := by
  simp [pieces, hc, h]

end Text

namespace NameStyle

open Casing

variable {c : Char} {cs rest : List Char} {style : NameStyle}

/-! ## Words -/

/-- What a character after the first is written as in snake case. -/
def snakeLetters (d : Char) : List Char :=
  if isUpper d then ['_', d.toLower] else [d.toLower]

theorem snakeWords_cons (c : Char) (rest : List Char) :
    snakeWords (c :: rest) = c.toLower :: rest.flatMap snakeLetters :=
  rfl

theorem snakeLetters_of_isUpper (hc : c.isUpper = true) : snakeLetters c = ['_', c.toLower] := by
  have hascii := toNat_lt_of_isAlphanum (isAlphanum_of_isUpper hc)
  rw [snakeLetters, isUpper_of_ascii hascii, if_pos hc]

theorem snakeLetters_of_not_isUpper (h : c.isAlphanum = true) (hc : ¬c.isUpper = true) :
    snakeLetters c = [c] := by
  rw [snakeLetters, isUpper_of_ascii (toNat_lt_of_isAlphanum h), if_neg hc,
    toLower_of_not_isUpper h hc]

/-- Letters and digits are read back from what they are written as: the first piece as it stands,
every other one with its first letter in upper case. -/
theorem exists_pieces_snakeLetters (h : ∀ d ∈ rest, d.isAlphanum = true) :
    ∃ word words, Text.pieces '_' (rest.flatMap snakeLetters) = word :: words ∧
      word ++ words.flatMap upperFirst = rest := by
  induction rest with
  | nil => exact ⟨[], [], rfl, rfl⟩
  | cons d rest ih =>
      obtain ⟨hd, hrest⟩ := List.forall_mem_cons.mp h
      obtain ⟨word, words, hpieces, hback⟩ := ih hrest
      by_cases hupper : d.isUpper = true
      · -- The letter begins a word, and what was the first piece goes on with it.
        have hlower : d.toLower ≠ '_' := ne_of_isAlphanum (isAlphanum_toLower hd) rfl
        refine ⟨[], (d.toLower :: word) :: words, ?_, ?_⟩
        · rw [List.flatMap_cons, snakeLetters_of_isUpper hupper, List.cons_append,
            Text.pieces_cons_self, List.singleton_append, Text.pieces_cons_of_ne hlower hpieces]
        · rw [List.flatMap_cons, upperFirst_toLower hupper, List.nil_append, List.cons_append,
            hback]
      · refine ⟨d :: word, words, ?_, ?_⟩
        · rw [List.flatMap_cons, snakeLetters_of_not_isUpper hd hupper, List.singleton_append,
            Text.pieces_cons_of_ne (ne_of_isAlphanum hd rfl) hpieces]
        · rw [List.cons_append, hback]

/-- A name that begins with an upper-case letter is read back from its snake case. -/
theorem pascalWords_snakeWords
    (hc : c.isUpper = true) (hrest : ∀ d ∈ rest, d.isAlphanum = true) :
    pascalWords (snakeWords (c :: rest)) = c :: rest := by
  obtain ⟨word, words, hpieces, hback⟩ := exists_pieces_snakeLetters hrest
  have hlower : c.toLower ≠ '_' :=
    ne_of_isAlphanum (isAlphanum_toLower (isAlphanum_of_isUpper hc)) rfl
  rw [pascalWords, snakeWords_cons, Text.pieces_cons_of_ne hlower hpieces, List.flatMap_cons,
    upperFirst_toLower hc, List.cons_append, hback]

/-! ## Styles that keep the words apart -/

/-- A character of a name in such a style as it is in snake case. -/
def snakeChar (c : Char) : Char :=
  if c = '-' then '_' else c.toLower

theorem snakeChar_toUpper (c : Char) : snakeChar c.toUpper = snakeChar c := by
  by_cases hc : c.toNat < 128
  · have hkept : ∀ n < 128, snakeChar (Char.ofNat n).toUpper = snakeChar (Char.ofNat n) := by decide
    obtain ⟨n, hn, rfl⟩ := exists_ofNat_of_ascii hc
    exact hkept n hn
  · have hbeyond : ¬c.val ≤ 'z'.val := by
      rw [UInt32.le_iff_toNat_le]
      exact fun hle => hc (Nat.lt_of_le_of_lt hle (by decide))
    have hsame : c.toUpper = c := dif_neg fun h => hbeyond h.2
    rw [hsame]

theorem map_snakeChar_toUpper (cs : List Char) :
    (cs.map Char.toUpper).map snakeChar = cs.map snakeChar := by
  rw [List.map_map]
  exact List.map_congr_left fun c _ => snakeChar_toUpper c

theorem map_snakeChar_hyphenate (cs : List Char) :
    (hyphenate cs).map snakeChar = cs.map snakeChar := by
  rw [hyphenate, List.map_map]
  apply List.map_congr_left
  intro c _
  by_cases hc : c = '_'
  · subst hc
    rfl
  · simp [hc]

/-- In snake case every character stands for itself. -/
theorem map_snakeChar_snakeWords (hcs : ∀ c ∈ cs, c.isAlphanum = true) :
    (snakeWords cs).map snakeChar = snakeWords cs := by
  have hlower : ∀ c : Char, c.isAlphanum = true → snakeChar c.toLower = c.toLower := by
    intro c hc
    rw [snakeChar, if_neg (ne_of_isAlphanum (isAlphanum_toLower hc) rfl),
      toLower_toLower hc]
  cases cs with
  | nil => rfl
  | cons c rest =>
      obtain ⟨hc, hrest⟩ := List.forall_mem_cons.mp hcs
      rw [snakeWords_cons, List.map_cons, hlower c hc, List.map_flatMap]
      congr 1
      apply List.flatMap_congr
      intro d hd
      have hseparator : snakeChar '_' = '_' := rfl
      by_cases hupper : isUpper d = true
      · simp [snakeLetters, hupper, hlower d (hrest d hd), hseparator]
      · simp [snakeLetters, hupper, hlower d (hrest d hd)]

/-- The styles that write something between the words of a name. -/
def separating : List NameStyle :=
  [snake, screamingSnake, kebab, screamingKebab]

/-- The snake case of a name is read back from every style that keeps the words apart. -/
theorem map_snakeChar_variantChars
    (hstyle : style ∈ separating) (hcs : ∀ c ∈ cs, c.isAlphanum = true) :
    (style.variantChars cs).map snakeChar = snakeWords cs := by
  rw [← map_snakeChar_snakeWords hcs]
  simp only [separating, List.mem_cons, List.not_mem_nil, or_false] at hstyle
  rcases hstyle with rfl | rfl | rfl | rfl
  · rfl
  · exact map_snakeChar_toUpper _
  · exact map_snakeChar_hyphenate _
  · rw [variantChars, map_snakeChar_toUpper, map_snakeChar_hyphenate]

end NameStyle

/-! ## Names of variants -/

/-- An ASCII identifier that begins with an upper-case letter and has no underscore. -/
structure IsPascal (name : String) : Prop where
  identifier : ∀ c ∈ name.toList, c.isAlphanum = true ∨ c = '_'
  capital : name.toList.head?.any Char.isUpper = true
  unbroken : '_' ∉ name.toList

namespace IsPascal

variable {name other : String}

theorem isAlphanum (h : IsPascal name) {c : Char} (hc : c ∈ name.toList) :
    c.isAlphanum = true := by
  rcases h.identifier c hc with halphanum | rfl
  · exact halphanum
  · exact absurd hc h.unbroken

theorem pascalWords_snakeWords (h : IsPascal name) :
    NameStyle.pascalWords (NameStyle.snakeWords name.toList) = name.toList := by
  cases hname : name.toList with
  | nil => exact absurd h.capital (by simp [hname])
  | cons c rest =>
      have hcapital : c.isUpper = true := by simpa [hname] using h.capital
      have hrest : ∀ d ∈ rest, d.isAlphanum = true :=
        fun d hd => h.isAlphanum (by simp [hname, hd])
      exact NameStyle.pascalWords_snakeWords hcapital hrest

/-- Names that are written alike in a style that keeps the words apart are alike. -/
theorem eq_of_variantChars_eq
    (h : IsPascal name) (hother : IsPascal other) {style : NameStyle}
    (hstyle : style ∈ NameStyle.separating)
    (heq : style.variantChars name.toList = style.variantChars other.toList) : name = other := by
  have hsnake : NameStyle.snakeWords name.toList = NameStyle.snakeWords other.toList := by
    rw [← NameStyle.map_snakeChar_variantChars hstyle fun _ hc => h.isAlphanum hc, heq,
      NameStyle.map_snakeChar_variantChars hstyle fun _ hc => hother.isAlphanum hc]
  rw [← String.toList_inj, ← h.pascalWords_snakeWords, hsnake, hother.pascalWords_snakeWords]

end IsPascal

/-- The names of variants are reversible.  A name that is an ASCII identifier, begins with an
upper-case letter and has no underscore is what its snake case is in Pascal case.  So in snake case,
in kebab case and in both of them in upper case, two such names that differ are written
differently. -/
theorem variant_names_reversible :
    (∀ name, IsPascal name →
      fieldWireName (variantWireName name "snake_case") "PascalCase" = name) ∧
    ∀ style ∈ ["snake_case", "SCREAMING_SNAKE_CASE", "kebab-case", "SCREAMING-KEBAB-CASE"],
      ∀ name other, IsPascal name → IsPascal other → name ≠ other →
        variantWireName name style ≠ variantWireName other style := by
  constructor
  · intro name h
    have hsnake : variantWireName name "snake_case" =
        String.ofList (NameStyle.snakeWords name.toList) := rfl
    have hpascal : ∀ cs, fieldWireName (String.ofList cs) "PascalCase" =
        String.ofList (NameStyle.pascalWords cs) :=
      fun cs => congrArg (fun cs => String.ofList (NameStyle.pascalWords cs)) String.toList_ofList
    rw [hsnake, hpascal, h.pascalWords_snakeWords, String.ofList_toList]
  · intro styleName hstyleName name other h hother hne heq
    have hstyles : ∀ styleName ∈
        ["snake_case", "SCREAMING_SNAKE_CASE", "kebab-case", "SCREAMING-KEBAB-CASE"],
        ∃ style ∈ NameStyle.separating, NameStyle.ofName? styleName = some style := by decide
    obtain ⟨style, hstyle, hname⟩ := hstyles styleName hstyleName
    simp only [variantWireName, hname] at heq
    exact hne (h.eq_of_variantChars_eq hother hstyle (String.ofList_injective heq))

/-- An acronym that ends in a digit, and two names that differ in the case of one letter. -/
theorem variant_names_reversible_acronym :
    fieldWireName (variantWireName "HTTP2Server" "snake_case") "PascalCase" = "HTTP2Server" ∧
      variantWireName "HTTP2Server" "SCREAMING-KEBAB-CASE" ≠
        variantWireName "Http2Server" "SCREAMING-KEBAB-CASE" := by
  have hacronym : IsPascal "HTTP2Server" := ⟨by simp, by simp, by simp⟩
  have hword : IsPascal "Http2Server" := ⟨by simp, by simp, by simp⟩
  obtain ⟨hback, happart⟩ := variant_names_reversible
  exact ⟨hback _ hacronym, happart _ (by decide) _ _ hacronym hword (by decide)⟩

end TypedRoutes
