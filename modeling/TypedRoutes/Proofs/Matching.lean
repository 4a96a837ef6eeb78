import TypedRoutes.Proofs.Segments

/-!
# What a pattern matches

The relation `Path.Matches` says in words of the path text when a pattern matches: the path is the
pattern with its variables replaced, and at most one more slash.  The matcher decides this relation
and finds the texts of the variables.
-/

namespace TypedRoutes
namespace Path

/-- `Fills segments texts path`: the segments of a pattern become those of a path when the variables
are replaced by the texts, one after the other. -/
inductive Fills : List String → List String → List String → Prop
  | nil : Fills [] [] []
  | literal {s : String} {segments texts path : List String} (hs : ¬IsVariable s)
      (rest : Fills segments texts path) : Fills (s :: segments) texts (s :: path)
  | replaced {s text : String} {segments texts path : List String} (hs : IsVariable s)
      (htext : IsSegment text) (rest : Fills segments texts path) :
      Fills (s :: segments) (text :: texts) (text :: path)

/-- A path is a pattern with its variables replaced by texts, with at most one more slash. -/
def Matches (pattern path : String) (texts : List String) : Prop :=
  ∃ filled, Fills (segments pattern) texts filled ∧
    (path = "/" ++ "/".intercalate filled ∨ path = "/" ++ "/".intercalate filled ++ "/")

namespace Fills

variable {segs texts filled : List String}

/-- A pattern without segments fills nothing else. -/
theorem filled_eq_nil_iff (h : Fills segs texts filled) : filled = [] ↔ segs = [] := by
  cases h <;> simp

/-- Each variable takes one text. -/
theorem length_texts
    (h : Fills segs texts filled) : (segs.filterMap variableName?).length = texts.length := by
  induction h with
  | nil => rfl
  | @literal s segments texts path hs rest ih =>
      rw [filterMap_literal hs]
      exact ih
  | @replaced s text segments texts path hs htext rest ih =>
      rw [length_filterMap_variable hs, ih, List.length_cons]

theorem isSegment_of_mem_filled
    (h : Fills segs texts filled) (hsegs : ∀ s ∈ segs, IsSegment s) :
    ∀ s ∈ filled, IsSegment s := by
  induction h with
  | nil => simp
  | literal _ _ ih =>
      simp only [List.mem_cons, forall_eq_or_imp] at hsegs ⊢
      exact ⟨hsegs.1, ih hsegs.2⟩
  | replaced _ htext _ ih =>
      simp only [List.mem_cons, forall_eq_or_imp] at hsegs ⊢
      exact ⟨htext, ih hsegs.2⟩

end Fills

/-! ## One segment of a pattern -/

theorem exists_fills_nil_iff
    {values : List String} {P : List String → Prop} :
    (∃ filled, Fills [] values filled ∧ P filled) ↔ values = [] ∧ P [] := by
  constructor
  · rintro ⟨_, ⟨⟩, hP⟩
    exact ⟨rfl, hP⟩
  · rintro ⟨rfl, hP⟩
    exact ⟨[], .nil, hP⟩

theorem exists_fills_literal_iff
    {s : String} {segs values : List String} {P : List String → Prop} (hs : ¬IsVariable s) :
    (∃ filled, Fills (s :: segs) values filled ∧ P filled) ↔
      ∃ filled, Fills segs values filled ∧ P (s :: filled) := by
  constructor
  · rintro ⟨_, hfills, hP⟩
    cases hfills with
    | literal _ hfills => exact ⟨_, hfills, hP⟩
    | replaced hs' => exact absurd hs' hs
  · rintro ⟨filled, hfills, hP⟩
    exact ⟨_, .literal hs hfills, hP⟩

theorem exists_fills_variable_iff
    {s : String} {segs values : List String} {P : List String → Prop} (hs : IsVariable s) :
    (∃ filled, Fills (s :: segs) values filled ∧ P filled) ↔
      ∃ value rest, values = value :: rest ∧ IsSegment value ∧
        ∃ filled, Fills segs rest filled ∧ P (value :: filled) := by
  constructor
  · rintro ⟨_, hfills, hP⟩
    cases hfills with
    | literal hs' => exact absurd hs hs'
    | replaced _ hvalue hfills => exact ⟨_, _, rfl, hvalue, _, hfills, hP⟩
  · rintro ⟨value, rest, rfl, hvalue, filled, hfills, hP⟩
    exact ⟨_, .replaced hs hvalue hfills, hP⟩

/-! ## Matching in terms of the pieces of the path -/

theorem matches_iff_rawSegments
    {pattern path : String} {values : List String} :
    Matches pattern path values ↔
      ∃ filled, Fills (segments pattern) values filled ∧
        (rawSegments path = "" :: afterSlash filled ∨
          rawSegments path = "" :: afterSlash filled ++ [""]) := by
  apply exists_congr
  intro filled
  apply and_congr_right
  intro hfills
  have hfilled := hfills.isSegment_of_mem_filled fun _ hs => isSegment_of_mem_segments hs
  rw [rawSegments_eq_afterSlash_iff hfilled, rawSegments_eq_afterSlash_slash_iff hfilled]

/-- One slash at the end of a path that has none makes no difference. -/
theorem matches_append_slash_iff
    {pattern path : String} {values : List String}
    (hne : path ≠ "") (hend : ∀ start, path ≠ start ++ "/") :
    Matches pattern (path ++ "/") values ↔ Matches pattern path values := by
  rw [matches_iff_rawSegments, matches_iff_rawSegments, rawSegments_append_slash]
  apply exists_congr
  intro filled
  apply and_congr_right
  intro hfills
  have hfilled := hfills.isSegment_of_mem_filled fun _ hs => isSegment_of_mem_segments hs
  constructor
  · rintro (h | h)
    · -- only the root ends in a slash by itself, and then nothing stands before it
      exfalso
      by_cases hroot : filled = []
      · have hraw : rawSegments path = [""] := by
          simpa [afterSlash, hroot, List.append_eq_cons_iff] using h
        apply hne
        rw [← intercalate_rawSegments path, hraw, String.intercalate_singleton]
      · obtain ⟨start, s, rfl⟩ := List.eq_nil_or_concat filled |>.resolve_left hroot
        rw [List.concat_eq_append] at h hfilled
        have hlast : s = "" := by
          rw [afterSlash, if_neg (by simp), ← List.cons_append] at h
          simpa using (List.append_inj_right' h rfl).symm
        exact (hfilled s (by simp)).1 hlast
    · exact .inl (List.append_cancel_right h)
  · rintro (h | h)
    · exact .inr (by rw [h])
    · exact absurd ((rawSegments_eq_afterSlash_slash_iff hfilled).mp h) (hend _)

/-- A pattern that matches has as many variables as texts stand in their places. -/
theorem Matches.length_texts
    {pattern path : String} {texts : List String} (h : Matches pattern path texts) :
    (variableNames pattern).length = texts.length := by
  obtain ⟨filled, hfills, _⟩ := h
  rw [variableNames_eq_filterMap_segments]
  exact hfills.length_texts

end Path

namespace Pattern

open TypedRoutes.Path (Fills IsSegment IsVariable Matches)

/-! ## The segments of a pattern -/

theorem segment?_cases
    {s : String} {segment : Segment} (h : segment? s = some segment) :
    (¬IsVariable s ∧ segment = .literal s) ∨
      ∃ name, Path.variableName? s = some name ∧ segment = .variable name := by
  cases hname : Path.variableName? s with
  | none =>
      left
      exact ⟨Path.not_isVariable_iff.mpr hname, by simpa [segment?, hname] using h.symm⟩
  | some name =>
      right
      cases hempty : name.isEmpty with
      | true => simp [segment?, hname, hempty] at h
      | false => exact ⟨name, rfl, by simpa [segment?, hname, hempty] using h.symm⟩

theorem exists_segments_of_ofPath?
    {path : String} {pattern : Pattern} (h : ofPath? path = some pattern) :
    ∃ segments, (Path.segments path).mapM segment? = some segments ∧ ⟨segments⟩ = pattern := by
  simpa [ofPath?, Option.map_eq_some_iff] using h

theorem mapM_segment?_cons
    {s : String} {segs : List String} {segments : List Segment}
    (h : (s :: segs).mapM segment? = some segments) :
    ∃ segment, segment? s = some segment ∧
      ∃ rest, segs.mapM segment? = some rest ∧ segment :: rest = segments := by
  simpa [List.mapM_cons, Option.bind_eq_some_iff] using h

theorem eq_nil_of_mapM_segment?_eq_nil
    {segs : List String} (h : segs.mapM segment? = some []) : segs = [] := by
  cases segs with
  | nil => rfl
  | cons s rest => simp [List.mapM_cons, Option.bind_eq_some_iff] at h

/-! ## The matcher -/

theorem matchSegments_nil_eq_some_iff
    {texts values : List String} :
    matchSegments [] texts = some values ↔ values = [] ∧ (texts = [] ∨ texts = [""]) := by
  match texts with
  | [] =>
      rw [matchSegments, Option.some_inj, eq_comm]
      simp
  | [text] =>
      by_cases htext : text = ""
      · rw [matchSegments, if_pos (by simpa using htext), Option.some_inj, eq_comm]
        simp [htext]
      · simp [matchSegments, htext]
  | _ :: _ :: _ => simp [matchSegments]

/-- The texts that the matcher finds fill the segments; one empty text may be left over, for the
slash at the end of the path. -/
theorem matchSegments_eq_some_iff
    {segs : List String} {segments : List Segment} (hsegments : segs.mapM segment? = some segments)
    {texts values : List String} (hfree : ∀ t ∈ texts, '/' ∉ t.toList) :
    matchSegments segments texts = some values ↔
      ∃ filled, Fills segs values filled ∧ (texts = filled ∨ texts = filled ++ [""]) := by
  induction segs generalizing segments texts values with
  | nil =>
      obtain rfl : segments = [] := by simpa using hsegments.symm
      rw [Path.exists_fills_nil_iff]
      simpa using matchSegments_nil_eq_some_iff
  | cons s segs ih =>
      obtain ⟨segment, hsegment, rest, hrest, rfl⟩ := mapM_segment?_cons hsegments
      cases texts with
      | nil =>
          have hnone : matchSegments (segment :: rest) [] = none := by
            cases segment <;> rfl
          simp only [hnone, reduceCtorEq, false_iff, not_exists, not_and]
          intro filled hfills
          cases hfills <;> simp
      | cons text texts =>
          have htext : '/' ∉ text.toList := hfree text (by simp)
          have hfree' : ∀ t ∈ texts, '/' ∉ t.toList := fun t ht => hfree t (by simp [ht])
          rcases segment?_cases hsegment with ⟨hvar, rfl⟩ | ⟨name, hname, rfl⟩
          · rw [Path.exists_fills_literal_iff hvar]
            by_cases heq : text = s
            · simp [matchSegments, heq, ih hrest hfree']
            · simp [matchSegments, heq]
          · have hvar : IsVariable s := by simp [IsVariable, hname]
            rw [Path.exists_fills_variable_iff hvar]
            by_cases hempty : text = ""
            · have hnone : matchSegments (.variable name :: rest) (text :: texts) = none := by
                simp [matchSegments, hempty]
              simp only [hnone, reduceCtorEq, false_iff, not_exists, not_and]
              rintro value _ - hvalue filled -
              simp [hempty, Ne.symm hvalue.1]
            · have hcond : text.isEmpty = false := by simpa using hempty
              simp only [matchSegments, hcond, Bool.false_eq_true, if_false,
                Option.map_eq_some_iff, ih hrest hfree']
              constructor
              · rintro ⟨values', ⟨filled, hfills, htexts⟩, rfl⟩
                exact ⟨text, values', rfl, ⟨hempty, htext⟩, filled, hfills, by simpa using htexts⟩
              · rintro ⟨value, values', rfl, -, filled, hfills, htexts⟩
                simp only [List.cons_append, List.cons.injEq] at htexts
                obtain rfl : text = value := by tauto
                exact ⟨values', ⟨filled, hfills, by tauto⟩, rfl⟩

/-- A path is read after its first slash.  The root has an empty text in the place of segments. -/
theorem match?_eq_some_iff_of_rawSegments
    (pattern : Pattern) {target first text : String} {texts : List String}
    (hraw : Path.rawSegments target = first :: text :: texts) (values : List String) :
    pattern.match? target = some values ↔
      first = "" ∧
        if pattern.segments = [] then text = "" ∧ matchSegments [] texts = some values
        else matchSegments pattern.segments (text :: texts) = some values := by
  obtain ⟨segments⟩ := pattern
  by_cases hfirst : first = ""
  · subst hfirst
    cases segments with
    | nil =>
        by_cases htext : text = ""
        · simp [match?, hraw, htext]
        · simp [match?, hraw, htext]
    | cons segment rest => simp [match?, hraw]
  · simp only [match?, hraw, hfirst, false_and, iff_false]
    split
    · rename_i heq
      simp only [List.cons.injEq] at heq
      exact absurd heq.1 hfirst
    · simp

/-- The matcher decides `Path.Matches` and finds the texts of the variables. -/
theorem match?_eq_some_iff
    {path : String} {pattern : Pattern} (hpattern : ofPath? path = some pattern)
    (target : String) (values : List String) :
    pattern.match? target = some values ↔ Matches path target values := by
  obtain ⟨segments, hsegments, rfl⟩ := exists_segments_of_ofPath? hpattern
  have hfree : ∀ t ∈ Path.rawSegments target, '/' ∉ t.toList :=
    fun _ ht => Text.not_mem_of_mem_split ht
  rw [Path.matches_iff_rawSegments]
  match hraw : Path.rawSegments target with
  | [] => simp [match?, hraw]
  | [first] =>
      have hnone : match? ⟨segments⟩ target = none := by simp [match?, hraw]
      have hlen : ∀ filled, Path.afterSlash filled ≠ [] := by
        intro filled
        by_cases h : filled = [] <;> simp [Path.afterSlash, h]
      simp [hnone, hlen]
  | first :: text :: texts =>
      rw [hraw] at hfree
      rw [match?_eq_some_iff_of_rawSegments _ hraw]
      by_cases hroot : Path.segments path = []
      · rw [hroot] at hsegments
        rw [if_pos (by simpa using hsegments.symm), matchSegments_nil_eq_some_iff, hroot,
          Path.exists_fills_nil_iff]
        simp only [Path.afterSlash, if_true, List.cons_append, List.nil_append, List.cons.injEq]
        tauto
      · have hne : segments ≠ [] := by
          rintro rfl
          exact hroot (eq_nil_of_mapM_segment?_eq_nil hsegments)
        have hafter : ∀ filled, Fills (Path.segments path) values filled →
            Path.afterSlash filled = filled := by
          intro filled hfills
          exact if_neg fun h => hroot (hfills.filled_eq_nil_iff.mp h)
        rw [if_neg hne, matchSegments_eq_some_iff hsegments fun t ht => hfree t (by simp_all)]
        constructor
        · rintro ⟨rfl, filled, hfills, htail⟩
          refine ⟨filled, hfills, ?_⟩
          rw [hafter filled hfills]
          simpa using htail
        · rintro ⟨filled, hfills, htail⟩
          rw [hafter filled hfills] at htail
          simp only [List.cons_append, List.cons.injEq] at htail
          exact ⟨by tauto, filled, hfills, htail.imp And.right And.right⟩

theorem isMatch_eq_true_iff
    {path : String} {pattern : Pattern} (hpattern : ofPath? path = some pattern)
    (target : String) :
    pattern.isMatch target = true ↔ ∃ texts, Matches path target texts := by
  rw [isMatch, Option.isSome_iff_exists]
  exact exists_congr fun texts => match?_eq_some_iff hpattern target texts

theorem filterMap_variable_of_mapM_segment?
    {segs : List String} {segments : List Segment}
    (hsegments : segs.mapM segment? = some segments) :
    variableNames ⟨segments⟩ = segs.filterMap Path.variableName? := by
  induction segs generalizing segments with
  | nil =>
      obtain rfl : segments = [] := by simpa using hsegments.symm
      rfl
  | cons s segs ih =>
      obtain ⟨segment, hsegment, rest, hrest, rfl⟩ := mapM_segment?_cons hsegments
      have htail := ih hrest
      rw [variableNames] at htail
      rcases segment?_cases hsegment with ⟨hvar, rfl⟩ | ⟨name, hname, rfl⟩
      · rw [Path.filterMap_literal hvar, ← htail]
        rfl
      · rw [List.filterMap_cons_some hname, ← htail]
        rfl

/-- The variables of a pattern are those of its path text. -/
theorem variableNames_eq
    {path : String} {pattern : Pattern} (hpattern : ofPath? path = some pattern) :
    pattern.variableNames = Path.variableNames path := by
  obtain ⟨segments, hsegments, rfl⟩ := exists_segments_of_ofPath? hpattern
  rw [Path.variableNames_eq_filterMap_segments]
  exact filterMap_variable_of_mapM_segment? hsegments

end Pattern
end TypedRoutes
