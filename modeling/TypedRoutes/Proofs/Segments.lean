import Mathlib.Data.List.Forall2
import TypedRoutes.Routing.Pattern

/-!
# Segments of path texts

Splitting a path at its slashes and joining segments with slashes undo each other.  The module also
says in terms of segments what a joined path is, which names its variables have, and when two
patterns differ only in the names of their variables.
-/

namespace TypedRoutes
namespace Text

/-! ## Splitting a text -/

/-- `pieces` splits as `List.splitOn` does. -/
theorem pieces_eq_splitOn
    (separator : Char) (cs : List Char) :
    pieces separator cs = cs.splitOn separator := by
  induction cs with
  | nil => rfl
  | cons c rest ih =>
      rw [List.splitOn_cons_eq_if_modifyHead, ← ih]
      by_cases h : c = separator
      · simp [pieces, h]
      · cases hp : pieces separator rest with
        | nil =>
            rw [hp] at ih
            exact absurd ih.symm (List.splitOn_ne_nil separator rest)
        | cons piece others => simp [pieces, h, hp]

theorem not_mem_of_mem_pieces
    {separator : Char} {cs piece : List Char}
    (h : piece ∈ pieces separator cs) : separator ∉ piece := by
  induction cs generalizing piece with
  | nil =>
      have hp : piece = [] := by simpa [pieces] using h
      simp [hp]
  | cons c rest ih =>
      by_cases hc : c = separator
      · have hcases : piece = [] ∨ piece ∈ pieces separator rest := by
          simpa [pieces, hc] using h
        rcases hcases with rfl | hmem
        · simp
        · exact ih hmem
      · cases hp : pieces separator rest with
        | nil =>
            have hpiece : piece = [c] := by simpa [pieces, hc, hp] using h
            simpa [hpiece] using Ne.symm hc
        | cons first others =>
            have hcases : piece = c :: first ∨ piece ∈ others := by
              simpa [pieces, hc, hp] using h
            rcases hcases with rfl | hmem
            · have hfirst : separator ∉ first := ih (by simp [hp])
              simpa [hfirst] using Ne.symm hc
            · exact ih (by simp [hp, hmem])

theorem not_mem_of_mem_split
    {separator : Char} {s text : String}
    (h : text ∈ split separator s) : separator ∉ text.toList := by
  obtain ⟨piece, hpiece, rfl⟩ := List.mem_map.mp h
  rw [String.toList_ofList]
  exact not_mem_of_mem_pieces hpiece

/-- Texts without the separator are what a text splits into exactly if it is these texts, joined. -/
theorem split_eq_iff
    {separator : Char} {s : String} {texts : List String}
    (hne : texts ≠ []) (hfree : ∀ t ∈ texts, separator ∉ t.toList) :
    split separator s = texts ↔
      s = (String.ofList [separator]).intercalate texts := by
  have htexts : (texts.map String.toList).map String.ofList = texts := by
    simp
  constructor
  · intro h
    have hpieces : pieces separator s.toList = texts.map String.toList := by
      rw [← h, split]
      simp
    rw [← String.toList_inj, String.toList_intercalate, String.toList_ofList, ← hpieces,
      pieces_eq_splitOn, List.intercalate_splitOn]
  · intro h
    have hs : s.toList = [separator].intercalate (texts.map String.toList) := by
      rw [h, String.toList_intercalate, String.toList_ofList]
    rw [split, pieces_eq_splitOn, hs, List.splitOn_intercalate separator, htexts]
    · intro cs hcs
      obtain ⟨t, ht, rfl⟩ := List.mem_map.mp hcs
      exact hfree t ht
    · simpa using hne

theorem split_ne_nil (separator : Char) (s : String) : split separator s ≠ [] := by
  rw [split, pieces_eq_splitOn]
  simp

/-- The pieces of a text, joined with the separator, are the text. -/
theorem intercalate_split (separator : Char) (s : String) :
    (String.ofList [separator]).intercalate (split separator s) = s :=
  ((split_eq_iff (split_ne_nil separator s) fun _ ht => not_mem_of_mem_split ht).mp rfl).symm

end Text

namespace Path

/-! ## The segments of a path -/

theorem rawSegments_ne_nil (path : String) : rawSegments path ≠ [] :=
  Text.split_ne_nil '/' path

theorem rawSegments_eq_iff
    {path : String} {texts : List String}
    (hne : texts ≠ []) (hfree : ∀ t ∈ texts, '/' ∉ t.toList) :
    rawSegments path = texts ↔ path = "/".intercalate texts :=
  Text.split_eq_iff hne hfree

/-- The pieces of a path, joined with slashes, are the path. -/
theorem intercalate_rawSegments (path : String) :
    "/".intercalate (rawSegments path) = path :=
  Text.intercalate_split '/' path

/-- A slash separates the pieces before it from those after it. -/
theorem rawSegments_append_slash_append (start rest : String) :
    rawSegments (start ++ "/" ++ rest) = rawSegments start ++ rawSegments rest := by
  rw [rawSegments_eq_iff (by simp [rawSegments_ne_nil])]
  · rw [String.intercalate_append_of_ne_nil (rawSegments_ne_nil start) (rawSegments_ne_nil rest),
      intercalate_rawSegments, intercalate_rawSegments]
  · intro t ht
    rcases List.mem_append.mp ht with ht | ht
    · exact Text.not_mem_of_mem_split ht
    · exact Text.not_mem_of_mem_split ht

theorem rawSegments_empty : rawSegments "" = [""] := rfl

/-- A slash at the end of a path adds an empty piece. -/
theorem rawSegments_append_slash (path : String) :
    rawSegments (path ++ "/") = rawSegments path ++ [""] := by
  rw [← rawSegments_empty, ← rawSegments_append_slash_append, String.append_empty]

/-- A text that can stand between two slashes of a path. -/
def IsSegment (text : String) : Prop :=
  text ≠ "" ∧ '/' ∉ text.toList

theorem isSegment_of_mem_segments
    {path s : String} (h : s ∈ segments path) : IsSegment s := by
  obtain ⟨hraw, hne⟩ := List.mem_filter.mp h
  exact ⟨by simpa using hne, Text.not_mem_of_mem_split hraw⟩

/-- What follows the first slash of a path with the given segments: the root has an empty text
there. -/
def afterSlash (segs : List String) : List String :=
  if segs = [] then [""] else segs

theorem slash_free_afterSlash
    {segs : List String} (hsegs : ∀ s ∈ segs, IsSegment s) :
    ∀ t ∈ afterSlash segs, '/' ∉ t.toList := by
  intro t ht
  by_cases h : segs = []
  · have : t = "" := by simpa [afterSlash, h] using ht
    simp [this]
  · exact (hsegs t (by simpa [afterSlash, h] using ht)).2

theorem slash_intercalate (segs : List String) :
    "/" ++ "/".intercalate segs = "/".intercalate ("" :: afterSlash segs) := by
  cases segs with
  | nil => rfl
  | cons s rest => simp [afterSlash, String.intercalate_cons_cons]

theorem slash_intercalate_slash (segs : List String) :
    "/" ++ "/".intercalate segs ++ "/" = "/".intercalate ("" :: afterSlash segs ++ [""]) := by
  have hne : "" :: afterSlash segs ≠ [] := by simp
  rw [String.intercalate_append_of_ne_nil hne (by simp), ← slash_intercalate]
  simp [String.intercalate_singleton]

theorem rawSegments_eq_afterSlash_iff
    {path : String} {segs : List String} (hsegs : ∀ s ∈ segs, IsSegment s) :
    rawSegments path = "" :: afterSlash segs ↔ path = "/" ++ "/".intercalate segs := by
  rw [slash_intercalate]
  apply rawSegments_eq_iff (by simp)
  intro t ht
  rcases List.mem_cons.mp ht with rfl | ht
  · simp
  · exact slash_free_afterSlash hsegs t ht

theorem rawSegments_eq_afterSlash_slash_iff
    {path : String} {segs : List String} (hsegs : ∀ s ∈ segs, IsSegment s) :
    rawSegments path = "" :: afterSlash segs ++ [""] ↔
      path = "/" ++ "/".intercalate segs ++ "/" := by
  rw [slash_intercalate_slash]
  apply rawSegments_eq_iff (by simp)
  intro t ht
  rcases List.mem_append.mp ht with ht | ht
  · rcases List.mem_cons.mp ht with rfl | ht
    · simp
    · exact slash_free_afterSlash hsegs t ht
  · simp [List.mem_singleton.mp ht]

/-! ## Joined paths -/

theorem join_slash_append (s : String) (rest : List String) :
    String.join ((s :: rest).map ("/" ++ ·)) = "/" ++ "/".intercalate (s :: rest) := by
  induction rest generalizing s with
  | nil => simp [String.join, String.intercalate_singleton]
  | cons t rest ih =>
      rw [List.map_cons, String.join_cons, ih t, String.intercalate_cons_cons]
      simp [String.append_assoc]

theorem ofSegments_eq (segs : List String) :
    ofSegments segs = "/" ++ "/".intercalate segs := by
  cases segs with
  | nil => rfl
  | cons s rest => simpa [ofSegments] using join_slash_append s rest

theorem rawSegments_ofSegments
    {segs : List String} (hsegs : ∀ s ∈ segs, IsSegment s) :
    rawSegments (ofSegments segs) = "" :: afterSlash segs :=
  (rawSegments_eq_afterSlash_iff hsegs).mpr (ofSegments_eq segs)

theorem filter_afterSlash
    {segs : List String} (hsegs : ∀ s ∈ segs, IsSegment s) :
    ("" :: afterSlash segs).filter (fun s => !s.isEmpty) = segs := by
  by_cases h : segs = []
  · simp [afterSlash, h]
  · have hall : segs.filter (fun s => !s.isEmpty) = segs := by
      rw [List.filter_eq_self]
      intro s hs
      simpa using (hsegs s hs).1
    simp [afterSlash, h, hall]

theorem segments_ofSegments
    {segs : List String} (hsegs : ∀ s ∈ segs, IsSegment s) :
    segments (ofSegments segs) = segs := by
  rw [segments, rawSegments_ofSegments hsegs, filter_afterSlash hsegs]

theorem isSegment_of_mem_append
    {start path s : String} (h : s ∈ segments start ++ segments path) : IsSegment s := by
  rcases List.mem_append.mp h with h | h
  · exact isSegment_of_mem_segments h
  · exact isSegment_of_mem_segments h

/-- The segments of a joined path are those of its parts. -/
theorem segments_join (start path : String) :
    segments (join start path) = segments start ++ segments path :=
  segments_ofSegments fun _ h => isSegment_of_mem_append h

/-- A joined path is its own normal form. -/
theorem ofSegments_segments_join (start path : String) :
    ofSegments (segments (join start path)) = join start path := by
  rw [segments_join, join]

/-! ## Variables -/

/-- A segment in braces. -/
def IsVariable (segment : String) : Prop :=
  (variableName? segment).isSome = true

instance (segment : String) : Decidable (IsVariable segment) :=
  inferInstanceAs (Decidable (_ = true))

end Path

namespace Text

theorem dropStart?_eq_some_iff
    {start cs rest : List Char} :
    dropStart? start cs = some rest ↔ cs = start ++ rest := by
  induction start generalizing cs with
  | nil => simp [dropStart?, eq_comm]
  | cons p ps ih =>
      cases cs with
      | nil => simp [dropStart?]
      | cons c cs =>
          by_cases h : p = c
          · simp [dropStart?, h, ih]
          · simp [dropStart?, h, Ne.symm h]

theorem dropEnd?_eq_some_iff
    {ending cs rest : List Char} :
    dropEnd? ending cs = some rest ↔ cs = rest ++ ending := by
  rw [dropEnd?, Option.map_eq_some_iff]
  constructor
  · rintro ⟨a, ha, rfl⟩
    have h := congrArg List.reverse (dropStart?_eq_some_iff.mp ha)
    simpa using h
  · intro h
    refine ⟨rest.reverse, ?_, List.reverse_reverse rest⟩
    rw [dropStart?_eq_some_iff, h, List.reverse_append]

end Text

namespace Path

theorem variableName?_eq_some_iff
    {segment name : String} :
    variableName? segment = some name ↔ segment = "\x7b" ++ name ++ "\x7d" := by
  rw [← String.toList_inj]
  simp only [variableName?, Option.bind_eq_bind, Option.bind_eq_some_iff,
    Text.dropStart?_eq_some_iff, Text.dropEnd?_eq_some_iff, Option.some.injEq]
  constructor
  · rintro ⟨rest, hrest, cs, rfl, rfl⟩
    simpa using hrest
  · intro h
    exact ⟨name.toList ++ ['\x7d'], by simpa using h, name.toList, rfl, String.ofList_toList⟩

theorem variableName?_empty : variableName? "" = none := rfl

theorem not_isVariable_iff {s : String} : ¬IsVariable s ↔ variableName? s = none := by
  simp [IsVariable]

theorem not_isVariable_empty : ¬IsVariable "" :=
  not_isVariable_iff.mpr variableName?_empty

theorem filterMap_literal
    {s : String} (hs : ¬IsVariable s) (rest : List String) :
    (s :: rest).filterMap variableName? = rest.filterMap variableName? :=
  List.filterMap_cons_none (not_isVariable_iff.mp hs)

theorem length_filterMap_variable
    {s : String} (hs : IsVariable s) (rest : List String) :
    ((s :: rest).filterMap variableName?).length = (rest.filterMap variableName?).length + 1 := by
  obtain ⟨name, hname⟩ := Option.isSome_iff_exists.mp hs
  rw [List.filterMap_cons_some hname, List.length_cons]

/-- The variables of a path are those of its segments that are not empty. -/
theorem variableNames_eq_filterMap_segments (path : String) :
    variableNames path = (segments path).filterMap variableName? := by
  rw [variableNames, segments, List.filterMap_filter]
  congr 1
  funext s
  by_cases h : s = ""
  · simp [h, variableName?_empty]
  · simp [h]

/-- Two patterns that are equal segment by segment, up to the names of variables. -/
def DifferOnlyInNames (a b : String) : Prop :=
  List.Forall₂ (fun s t => s = t ∨ (IsVariable s ∧ IsVariable t)) (rawSegments a) (rawSegments b)

theorem sameRoute_eq_true_iff (a b : String) :
    sameRoute a b = true ↔ DifferOnlyInNames a b := by
  rw [sameRoute, beq_iff_eq, routeShape, routeShape, ← List.forall₂_eq_eq_eq,
    List.forall₂_map_left_iff, List.forall₂_map_right_iff, DifferOnlyInNames]
  have hshape : ∀ s t : String,
      ((if (variableName? s).isSome then none else some s) =
        (if (variableName? t).isSome then none else some t)) ↔
      (s = t ∨ (IsVariable s ∧ IsVariable t)) := by
    intro s t
    by_cases hs : (variableName? s).isSome
    · by_cases ht : (variableName? t).isSome
      · simp [IsVariable, hs, ht]
      · have hne : s ≠ t := by
          rintro rfl
          exact ht hs
        simp [IsVariable, hs, ht, hne]
    · by_cases ht : (variableName? t).isSome
      · have hne : s ≠ t := by
          rintro rfl
          exact hs ht
        simp [IsVariable, hs, ht, hne]
      · have hs' : variableName? s = none := by simpa using hs
        have ht' : variableName? t = none := by simpa using ht
        simp [IsVariable, hs', ht']
  simp only [hshape]

end Path

namespace Pattern

/-! ## The pattern of a path -/

theorem segment?_eq_none_iff
    {text : String} : segment? text = none ↔ text = "\x7b\x7d" := by
  constructor
  · intro h
    cases hname : Path.variableName? text with
    | none => simp [segment?, hname] at h
    | some name =>
        have hempty : name = "" := by simpa [segment?, hname] using h
        have htext := Path.variableName?_eq_some_iff.mp hname
        rw [hempty] at htext
        exact htext
  · rintro rfl
    rfl

/-- A path has a pattern unless one of its variables has no name. -/
theorem ofPath?_isSome_iff (path : String) :
    (ofPath? path).isSome = true ↔ "\x7b\x7d" ∉ Path.segments path := by
  rw [ofPath?, Option.isSome_map]
  induction Path.segments path with
  | nil => simp
  | cons s rest ih =>
      cases hs : segment? s with
      | none =>
          obtain rfl := segment?_eq_none_iff.mp hs
          simp [List.mapM_cons, hs]
      | some segment =>
          have hbraces : s ≠ "\x7b\x7d" := by
            intro h
            have hnone := segment?_eq_none_iff.mpr h
            simp [hs] at hnone
          have htail : (List.mapM segment? (s :: rest)).isSome =
              (List.mapM segment? rest).isSome := by
            cases hrest : List.mapM segment? rest <;> simp [List.mapM_cons, hs, hrest]
          rw [htail, ih]
          simp [Ne.symm hbraces]

end Pattern
end TypedRoutes
