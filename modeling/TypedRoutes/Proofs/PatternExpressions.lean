import TypedRoutes.Proofs.Matching
import TypedRoutes.Routing.Expression

/-!
# What the expression of a pattern matches

The regular expression of a pattern can be read, and in one way only.  It matches the paths that the
pattern matches, and its groups take the texts of the variables.  So nothing depends on how the
groups are searched for.
-/

namespace TypedRoutes
namespace Expression

variable {c : Char} {rest tail text : List Char} {parts parts' : List ExpressionPart}
  {taken : List String}

/-! ## Reading -/

theorem not_readAs_of_question : ¬ReadAs ('?' :: rest) parts := by
  intro h
  cases h with
  | one hc => exact absurd hc (by decide)
  | optional hc => exact absurd hc (by decide)

/-- An expression is read in one way only. -/
theorem ReadAs.unique (h : ReadAs rest parts) (h' : ReadAs rest parts') : parts = parts' := by
  induction h generalizing parts' with
  | stop =>
      cases h' with
      | stop => rfl
      | one hc => exact absurd hc (by decide)
  | one hc hrest ih =>
      cases h' with
      | stop => exact absurd hc (by decide)
      | one hc' hrest' => rw [ih hrest']
      | escaped => exact absurd hc (by decide)
      | optional hc' hrest' => exact absurd hrest not_readAs_of_question
      | group => exact absurd hc (by decide)
  | escaped hc hrest ih =>
      cases h' with
      | one hc' => exact absurd hc' (by decide)
      | escaped hc' hrest' => rw [ih hrest']
      | optional hc' => exact absurd hc' (by decide)
  | optional hc hrest ih =>
      cases h' with
      | one hc' hrest' => exact absurd hrest' not_readAs_of_question
      | escaped => exact absurd hc (by decide)
      | optional hc' hrest' => rw [ih hrest']
  | group hrest ih =>
      cases h' with
      | one hc' => exact absurd hc' (by decide)
      | group hrest' => rw [ih hrest']

/-! ## The parts of a pattern -/

/-- The parts of a segment with the slash before it. -/
def segmentParts : Segment → List ExpressionPart
  | .literal text => .one '/' :: text.toList.map .one
  | .variable _ => [.one '/', .group]

/-- The parts of segments; the root is a slash. -/
def partsOf (segments : List Segment) : List ExpressionPart :=
  if segments = [] then [.one '/'] else segments.flatMap segmentParts

theorem readAs_slash (h : ReadAs rest parts) : ReadAs ('/' :: rest) (.one '/' :: parts) :=
  .one (by decide) h

theorem readAs_escape (text : String) (h : ReadAs rest parts) :
    ReadAs ((escape text).toList ++ rest) (text.toList.map .one ++ parts) := by
  rw [escape, String.toList_ofList]
  induction text.toList with
  | nil => exact h
  | cons c cs ih =>
      rw [List.flatMap_cons, List.append_assoc, List.map_cons]
      cases hc : isMeta c with
      | true => exact .escaped hc ih
      | false => exact .one hc ih

theorem readAs_segment (segment : Segment) (h : ReadAs rest parts) :
    ReadAs (("/" ++ segment.expression).toList ++ rest) (segmentParts segment ++ parts) := by
  rw [String.toList_append]
  match segment with
  | .literal text => exact readAs_slash (readAs_escape text h)
  | .variable _ =>
      have hgroup : "([^/]+)".toList = ['(', '[', '^', '/', ']', '+', ')'] := by decide
      rw [Segment.expression, hgroup]
      exact readAs_slash (.group h)

theorem readAs_segments (segments : List Segment) (h : ReadAs rest parts) :
    ReadAs ((Path.ofSegments (segments.map Segment.expression)).toList ++ rest)
      (partsOf segments ++ parts) := by
  have hjoined : ReadAs
      ((String.join ((segments.map Segment.expression).map ("/" ++ ·))).toList ++ rest)
      (segments.flatMap segmentParts ++ parts) := by
    induction segments with
    | nil => exact h
    | cons segment segments ih =>
        rw [List.map_cons, List.map_cons, String.join_cons, String.toList_append, List.append_assoc,
          List.flatMap_cons, List.append_assoc]
        exact readAs_segment segment ih
  rw [Path.ofSegments, partsOf]
  by_cases hroot : segments = []
  · rw [if_pos hroot, if_pos (by simp [hroot])]
    exact readAs_slash h
  · rw [if_neg hroot, if_neg (by simpa using hroot)]
    exact hjoined

/-- The expression of a pattern is read as the parts of its segments and a slash that may be there
or not. -/
theorem captures_expression_iff {pattern : Pattern} {target : String} :
    Captures pattern.expression target taken ↔
      Takes (partsOf pattern.segments ++ [.optional '/']) target.toList taken := by
  have hread : ReadAs
      ((Path.ofSegments (pattern.segments.map Segment.expression)).toList ++ ['/', '?', '$'])
      (partsOf pattern.segments ++ [.optional '/']) :=
    readAs_segments _ (.optional (by decide) .stop)
  have htext : pattern.expression.toList = '^' ::
      ((Path.ofSegments (pattern.segments.map Segment.expression)).toList ++ ['/', '?', '$']) := by
    rw [Pattern.expression, String.toList_append, String.toList_append]
    rfl
  constructor
  · rintro ⟨rest, parts, hrest, hparts, htakes⟩
    obtain ⟨-, rfl⟩ := List.cons.inj (htext.symm.trans hrest)
    rwa [hread.unique hparts]
  · exact fun htakes => ⟨_, _, htext, hread, htakes⟩

/-! ## What the parts match -/

theorem takes_one_iff {chars : List Char} :
    Takes (.one c :: parts) chars taken ↔ ∃ rest, chars = c :: rest ∧ Takes parts rest taken := by
  constructor
  · intro h
    cases h with
    | one hrest => exact ⟨_, rfl, hrest⟩
  · rintro ⟨rest, rfl, hrest⟩
    exact .one hrest

theorem takes_ones_iff {chars : List Char} (text : List Char) :
    Takes (text.map .one ++ parts) chars taken ↔
      ∃ rest, chars = text ++ rest ∧ Takes parts rest taken := by
  induction text generalizing chars with
  | nil => simp
  | cons c cs ih =>
      rw [List.map_cons, List.cons_append, takes_one_iff]
      constructor
      · rintro ⟨_, rfl, htakes⟩
        obtain ⟨rest, rfl, hrest⟩ := ih.mp htakes
        exact ⟨rest, rfl, hrest⟩
      · rintro ⟨rest, rfl, hrest⟩
        exact ⟨cs ++ rest, rfl, ih.mpr ⟨rest, rfl, hrest⟩⟩

theorem takes_group_iff {chars : List Char} :
    Takes (.group :: parts) chars taken ↔
      ∃ text rest others, chars = text.toList ++ rest ∧ taken = text :: others ∧
        Path.IsSegment text ∧ Takes parts rest others := by
  constructor
  · intro h
    cases h with
    | group hne hslash hrest => exact ⟨_, _, _, rfl, rfl, ⟨hne, hslash⟩, hrest⟩
  · rintro ⟨text, rest, others, rfl, rfl, ⟨hne, hslash⟩, hrest⟩
    exact .group hne hslash hrest

theorem takes_optional_iff {chars : List Char} :
    Takes [.optional c] chars taken ↔ taken = [] ∧ (chars = [] ∨ chars = [c]) := by
  constructor
  · intro h
    cases h with
    | present hrest =>
        cases hrest
        exact ⟨rfl, .inr rfl⟩
    | absent hrest =>
        cases hrest
        exact ⟨rfl, .inl rfl⟩
  · rintro ⟨rfl, rfl | rfl⟩
    · exact .absent .nil
    · exact .present .nil

/-- Segments with a slash before each. -/
def slashed (filled : List String) : List Char :=
  filled.flatMap fun s => '/' :: s.toList

/-- The parts of segments match what fills the segments, and the groups take what replaces the
variables. -/
theorem takes_segments_iff
    {segs : List String} {segments : List Segment}
    (hsegments : segs.mapM Pattern.segment? = some segments) {chars : List Char} :
    Takes (segments.flatMap segmentParts ++ [.optional '/']) chars taken ↔
      ∃ filled, Path.Fills segs taken filled ∧
        (chars = slashed filled ∨ chars = slashed filled ++ ['/']) := by
  induction segs generalizing segments chars taken with
  | nil =>
      obtain rfl : segments = [] := by simpa using hsegments.symm
      rw [Path.exists_fills_nil_iff]
      exact takes_optional_iff
  | cons s segs ih =>
      obtain ⟨segment, hsegment, rest, hrest, rfl⟩ := Pattern.mapM_segment?_cons hsegments
      rw [List.flatMap_cons, List.append_assoc]
      rcases Pattern.segment?_cases hsegment with ⟨hvar, rfl⟩ | ⟨name, hname, rfl⟩
      · rw [Path.exists_fills_literal_iff hvar]
        simp only [segmentParts, List.cons_append, takes_one_iff, takes_ones_iff, ih hrest]
        constructor
        · rintro ⟨_, rfl, _, rfl, filled, hfills, rfl | rfl⟩
          · exact ⟨filled, hfills, .inl rfl⟩
          · exact ⟨filled, hfills, .inr (by simp [slashed])⟩
        · rintro ⟨filled, hfills, rfl | rfl⟩
          · exact ⟨_, rfl, _, rfl, filled, hfills, .inl rfl⟩
          · exact ⟨s.toList ++ (slashed filled ++ ['/']), by simp [slashed], _, rfl, filled, hfills,
              .inr rfl⟩
      · have hvar : Path.IsVariable s := by simp [Path.IsVariable, hname]
        rw [Path.exists_fills_variable_iff hvar]
        simp only [segmentParts, List.cons_append, List.nil_append, takes_one_iff, takes_group_iff,
          ih hrest]
        constructor
        · rintro ⟨_, rfl, text, _, others, rfl, rfl, htext, filled, hfills, rfl | rfl⟩
          · exact ⟨text, others, rfl, htext, filled, hfills, .inl rfl⟩
          · exact ⟨text, others, rfl, htext, filled, hfills, .inr (by simp [slashed])⟩
        · rintro ⟨text, others, rfl, htext, filled, hfills, rfl | rfl⟩
          · exact ⟨_, rfl, text, _, others, rfl, rfl, htext, filled, hfills, .inl rfl⟩
          · exact ⟨text.toList ++ (slashed filled ++ ['/']), by simp [slashed], text, _, others,
              rfl, rfl, htext, filled, hfills, .inr rfl⟩

theorem toList_ofSegments {filled : List String} (h : filled ≠ []) :
    (Path.ofSegments filled).toList = slashed filled := by
  have hjoin : ∀ segs : List String,
      (String.join (segs.map ("/" ++ ·))).toList = slashed segs := by
    intro segs
    induction segs with
    | nil => rfl
    | cons s segs ih =>
        rw [List.map_cons, String.join_cons, String.toList_append, ih, String.toList_append]
        rfl
  rw [Path.ofSegments, if_neg (by simpa using h), hjoin]

end Expression

namespace Pattern

open Expression

/-- The regular expression of a pattern matches the paths that the pattern matches, and its groups
take the texts of the variables. -/
theorem match?_eq_some_iff_captures
    {path : String} {pattern : Pattern} (hpattern : ofPath? path = some pattern)
    (target : String) (values : List String) :
    pattern.match? target = some values ↔ Captures pattern.expression target values := by
  obtain ⟨segments, hsegments, rfl⟩ := exists_segments_of_ofPath? hpattern
  rw [match?_eq_some_iff hpattern, captures_expression_iff, Path.Matches]
  simp only [← Path.ofSegments_eq, ← String.toList_inj, String.toList_append]
  by_cases hroot : Path.segments path = []
  · rw [hroot] at hsegments ⊢
    obtain rfl : segments = [] := by simpa using hsegments.symm
    rw [Path.exists_fills_nil_iff]
    have hparts : partsOf [] ++ [ExpressionPart.optional '/'] =
        ['/'].map .one ++ [.optional '/'] := rfl
    rw [hparts, takes_ones_iff]
    simp only [takes_optional_iff]
    constructor
    · rintro ⟨rfl, htarget | htarget⟩
      · exact ⟨[], htarget, rfl, .inl rfl⟩
      · exact ⟨['/'], htarget, rfl, .inr rfl⟩
    · rintro ⟨_, htarget, rfl, rfl | rfl⟩
      · exact ⟨rfl, .inl htarget⟩
      · exact ⟨rfl, .inr htarget⟩
  · have hne : segments ≠ [] := by
      rintro rfl
      exact hroot (eq_nil_of_mapM_segment?_eq_nil hsegments)
    rw [partsOf, if_neg hne, takes_segments_iff hsegments]
    refine exists_congr fun filled => and_congr_right fun hfills => ?_
    rw [toList_ofSegments fun hnil => hroot (hfills.filled_eq_nil_iff.mp hnil)]
    rfl

example : (ofPath? "/files/\x7bname\x7d.json/v1.0/").map expression =
    some "^/files/\\\x7bname\\\x7d\\.json/v1\\.0/?$" := by decide

example : (ofPath? "/users/\x7bid\x7d").map expression = some "^/users/([^/]+)/?$" := by decide

end Pattern
end TypedRoutes
