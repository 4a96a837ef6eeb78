import Mathlib.Data.Set.Finite.Basic
import TypedRoutes.Proofs.UrlBuilding

/-!
# Patterns that match the same paths

Compiling a path pattern keeps its variables in order, and two compiled patterns match the same
paths exactly if they differ only in the names of their variables.  Two patterns of different shapes
are told apart by a path of one of them: all of its variables are replaced by one text that is a
segment of neither.
-/

namespace TypedRoutes
namespace Path

variable {a b text : String} {segs segs' texts filled : List String}

/-! ## Patterns of one shape -/

/-- What fills a pattern fills every pattern that differs only in the names of variables. -/
theorem Fills.rename
    (h : Fills segs texts filled)
    (hshape : List.Forall₂ (fun s t => s = t ∨ (IsVariable s ∧ IsVariable t)) segs segs') :
    Fills segs' texts filled := by
  induction h generalizing segs' with
  | nil =>
      cases hshape
      exact .nil
  | literal hs _ ih =>
      cases hshape with
      | cons hst hrest =>
          rcases hst with rfl | ⟨hvar, -⟩
          · exact .literal hs (ih hrest)
          · exact absurd hvar hs
  | replaced hs htext _ ih =>
      cases hshape with
      | cons hst hrest =>
          have ht := hst.elim (fun heq => heq ▸ hs) And.right
          exact .replaced ht htext (ih hrest)

theorem IsVariable.ne_empty {s : String} (h : IsVariable s) : s ≠ "" := by
  rintro rfl
  exact not_isVariable_empty h

theorem DifferOnlyInNames.symm (h : DifferOnlyInNames a b) : DifferOnlyInNames b a := by
  refine List.Forall₂.flip (h.imp ?_)
  rintro s t (rfl | ⟨hs, ht⟩)
  · exact .inl rfl
  · exact .inr ⟨ht, hs⟩

theorem DifferOnlyInNames.segments
    (h : DifferOnlyInNames a b) :
    List.Forall₂ (fun s t => s = t ∨ (IsVariable s ∧ IsVariable t)) (segments a) (segments b) := by
  refine List.rel_filter ?_ h
  rintro s t (rfl | ⟨hs, ht⟩)
  · rfl
  · simp [hs.ne_empty, ht.ne_empty]

theorem DifferOnlyInNames.matches
    (h : DifferOnlyInNames a b) {path : String} (hmatches : Matches a path texts) :
    Matches b path texts := by
  obtain ⟨filled, hfills, hpath⟩ := hmatches
  exact ⟨filled, hfills.rename h.segments, hpath⟩

/-! ## Paths that tell patterns apart -/

/-- The path of a pattern with one text in the place of every variable. -/
def uniform (pattern text : String) : String :=
  "/" ++ "/".intercalate
    (fill (segments pattern) (List.replicate (variableNames pattern).length text))

theorem matches_uniform
    (pattern : String) (htext : IsSegment text) :
    Matches pattern (uniform pattern text)
      (List.replicate (variableNames pattern).length text) := by
  refine ⟨_, fills_fill ?_ ?_, .inl rfl⟩
  · rw [List.length_replicate, variableNames_eq_filterMap_segments]
  · intro t ht
    rwa [(List.mem_replicate.mp ht).2]

/-- A pattern that matches such a path of another one, where the text is none of its literals, has
at least as many variables, and if it has no more it differs only in names. -/
theorem le_and_differOnlyInNames_of_uniform
    (ha : IsNormal a) (hb : IsNormal b) (htext : IsSegment text) (hfresh : text ∉ segments b)
    (hmatches : Matches b (uniform a text) texts) :
    (variableNames a).length ≤ (variableNames b).length ∧
      ((variableNames b).length ≤ (variableNames a).length → DifferOnlyInNames b a) := by
  have hliteral : ∀ t ∈ List.replicate (variableNames a).length text, ∀ s ∈ segments b,
      ¬IsVariable s → t ≠ s := by
    rintro t ht s hs - rfl
    rw [(List.mem_replicate.mp ht).2] at hs
    exact hfresh hs
  rw [variableNames_eq_filterMap_segments a, variableNames_eq_filterMap_segments b]
  obtain ⟨hle, hshape⟩ :=
    (matches_uniform a htext).fills_segments.length_variables_le hmatches.fills_segments hliteral
  exact ⟨hle, fun hge => differOnlyInNames_of_segments hb ha (hshape hge)⟩

theorem exists_isSegment_not_mem (texts : List String) : ∃ text, IsSegment text ∧ text ∉ texts := by
  have hinjective : Function.Injective fun n => String.ofList (List.replicate (n + 1) 'a') := by
    intro m n h
    simpa using congrArg (fun s => s.toList.length) h
  obtain ⟨_, ⟨n, rfl⟩, hfresh⟩ :=
    (Set.infinite_range_of_injective hinjective).exists_notMem_finset texts.toFinset
  refine ⟨String.ofList (List.replicate (n + 1) 'a'), ⟨?_, ?_⟩, ?_⟩
  · intro hempty
    have hlength := congrArg String.toList hempty
    simp at hlength
  · rw [String.toList_ofList, List.mem_replicate]
    rintro ⟨-, hslash⟩
    exact absurd hslash (by decide)
  · rwa [List.mem_toFinset] at hfresh

/-- Patterns that match the same paths differ only in the names of variables. -/
theorem differOnlyInNames_of_matches
    (ha : IsNormal a) (hb : IsNormal b)
    (h : ∀ path, (∃ texts, Matches a path texts) ↔ ∃ texts, Matches b path texts) :
    DifferOnlyInNames a b := by
  obtain ⟨text, htext, hfresh⟩ := exists_isSegment_not_mem (segments a ++ segments b)
  rw [List.mem_append, not_or] at hfresh
  obtain ⟨texts, hmatches⟩ := (h (uniform a text)).mp ⟨_, matches_uniform a htext⟩
  obtain ⟨texts', hmatches'⟩ := (h (uniform b text)).mpr ⟨_, matches_uniform b htext⟩
  obtain ⟨-, hshape⟩ := le_and_differOnlyInNames_of_uniform ha hb htext hfresh.2 hmatches
  obtain ⟨hle, -⟩ := le_and_differOnlyInNames_of_uniform hb ha htext hfresh.1 hmatches'
  exact (hshape hle).symm

end Path

namespace Pattern

variable {a b : String} {p q : Pattern}

theorem match?_eq_of_differOnlyInNames
    (hp : ofPath? a = some p) (hq : ofPath? b = some q) (h : Path.DifferOnlyInNames a b)
    (path : String) : p.match? path = q.match? path := by
  apply Option.ext
  intro texts
  rw [match?_eq_some_iff hp, match?_eq_some_iff hq]
  exact ⟨h.matches, h.symm.matches⟩

/-- The readers of a path pattern agree.  A compiled pattern has the variables of its path text, in
order.  Of two joined paths that are compiled, `Path.sameRoute` holds exactly if the patterns match
the same paths, and then the texts of their variables are the same as well. -/
theorem sameRoute_iff_same_paths :
    (∀ path p, ofPath? path = some p → p.variableNames = Path.variableNames path) ∧
    ∀ start path start' path' p q,
      ofPath? (Path.join start path) = some p → ofPath? (Path.join start' path') = some q →
      (Path.sameRoute (Path.join start path) (Path.join start' path') = true ↔
        ∀ target, p.isMatch target = q.isMatch target) ∧
      (Path.sameRoute (Path.join start path) (Path.join start' path') = true →
        ∀ target, p.match? target = q.match? target) := by
  refine ⟨fun path p hp => variableNames_eq hp, ?_⟩
  intro start path start' path' p q hp hq
  rw [Path.sameRoute_eq_true_iff]
  refine ⟨⟨?_, ?_⟩, match?_eq_of_differOnlyInNames hp hq⟩
  · intro hshape target
    rw [isMatch, match?_eq_of_differOnlyInNames hp hq hshape, ← isMatch]
  · intro hsame
    refine Path.differOnlyInNames_of_matches (Path.ofSegments_segments_join start path)
      (Path.ofSegments_segments_join start' path') ?_
    intro target
    rw [← isMatch_eq_true_iff hp, ← isMatch_eq_true_iff hq, hsame target]

/-- Two spellings of a user's path match the same paths.  Two literals that only begin with a brace
are no variables, and a path tells them apart. -/
theorem sameRoute_iff_same_paths_users :
    (∃ p q, ofPath? (Path.join "/users" "\x7bid\x7d") = some p ∧
      ofPath? (Path.join "users/" "/\x7bname\x7d/") = some q ∧ p.variableNames = ["id"] ∧
      ∀ target, p.match? target = q.match? target) ∧
    ∃ p q, ofPath? (Path.join "/users" "\x7bid") = some p ∧
      ofPath? (Path.join "/users" "\x7bname") = some q ∧
      ∃ target, p.isMatch target ≠ q.isMatch target := by
  obtain ⟨hnames, hshapes⟩ := sameRoute_iff_same_paths
  constructor
  · obtain ⟨p, hp⟩ : ∃ p, ofPath? (Path.join "/users" "\x7bid\x7d") = some p :=
      Option.isSome_iff_exists.mp (by decide)
    obtain ⟨q, hq⟩ : ∃ q, ofPath? (Path.join "users/" "/\x7bname\x7d/") = some q :=
      Option.isSome_iff_exists.mp (by decide)
    refine ⟨p, q, hp, hq, (hnames _ p hp).trans (by decide), ?_⟩
    exact (hshapes _ _ _ _ p q hp hq).2 (by decide)
  · obtain ⟨p, hp⟩ : ∃ p, ofPath? (Path.join "/users" "\x7bid") = some p :=
      Option.isSome_iff_exists.mp (by decide)
    obtain ⟨q, hq⟩ : ∃ q, ofPath? (Path.join "/users" "\x7bname") = some q :=
      Option.isSome_iff_exists.mp (by decide)
    refine ⟨p, q, hp, hq, ?_⟩
    have hshape : ¬Path.sameRoute (Path.join "/users" "\x7bid")
        (Path.join "/users" "\x7bname") = true := by decide
    rw [(hshapes _ _ _ _ p q hp hq).1] at hshape
    push Not at hshape
    exact hshape

end Pattern
end TypedRoutes
