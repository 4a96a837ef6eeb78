import Mathlib.Data.List.Infix
import TypedRoutes.Proofs.UrlBuilding

/-!
# Joined paths

Joining two paths writes a slash before each segment of either that is not empty.  The paths written
in this way are told by their characters alone: they begin with a slash, have no two slashes side by
side and, the root apart, do not end with one.  Such a path is normal, that is, it is what its own
segments are written as, so joining is associative and joining nothing to a joined path leaves it as
it is.
-/

namespace TypedRoutes
namespace Path

variable {path start rest : String} {texts : List String}

/-- The segments of a path, the empty ones too: texts without slashes that are the path when they
are written with a slash between each two. -/
structure SplitsInto (path : String) (texts : List String) : Prop where
  ne_nil : texts ≠ []
  slash_free : ∀ t ∈ texts, '/' ∉ t.toList
  intercalate_eq : "/".intercalate texts = path

/-- There is exactly one list of segments. -/
theorem splitsInto_iff : SplitsInto path texts ↔ rawSegments path = texts := by
  constructor
  · intro h
    exact (rawSegments_eq_iff h.ne_nil h.slash_free).mpr h.intercalate_eq.symm
  · rintro rfl
    exact ⟨rawSegments_ne_nil path, fun _ ht => Text.not_mem_of_mem_split ht,
      intercalate_rawSegments path⟩

/-- A path that begins with a slash, has no empty segment after it and, the root apart, does not end
with a slash. -/
structure IsClean (path : String) : Prop where
  rooted : ['/'] <+: path.toList
  single : ¬['/', '/'] <:+: path.toList
  unslashed : ['/'] <:+ path.toList → path = "/"

/-! ## Normal paths are clean -/

theorem segments_eq_nil_of_empty_mem
    (h : "" ∈ afterSlash (segments path)) : segments path = [] := by
  by_contra hne
  rw [afterSlash, if_neg hne] at h
  exact (isSegment_of_mem_segments h).1 rfl

/-- What follows a slash of a normal path is the end of its segments. -/
theorem IsNormal.exists_afterSlash_eq
    (h : IsNormal path) (hpath : path = start ++ "/" ++ rest) :
    ∃ texts, afterSlash (segments path) = texts ++ rawSegments rest := by
  have hraw := rawSegments_of_isNormal h
  have hsplit : rawSegments path = rawSegments start ++ rawSegments rest := by
    rw [hpath, rawSegments_append_slash_append]
  obtain ⟨first, texts, hstart⟩ := List.exists_cons_of_ne_nil (rawSegments_ne_nil start)
  rw [hsplit, hstart, List.cons_append, List.cons.injEq] at hraw
  exact ⟨texts, hraw.2.symm⟩

theorem IsNormal.isClean (h : IsNormal path) : IsClean path where
  rooted := by
    rw [← h, ofSegments_eq, String.toList_append]
    exact List.prefix_append _ _
  single := by
    rintro ⟨before, after, hchars⟩
    have hpath : path = String.ofList before ++ "/" ++ ("" ++ "/" ++ String.ofList after) := by
      rw [← String.toList_inj, ← hchars]
      simp
    obtain ⟨texts, htexts⟩ := h.exists_afterSlash_eq hpath
    rw [rawSegments_append_slash_append, rawSegments_empty] at htexts
    have hnil : segments path = [] := segments_eq_nil_of_empty_mem (by simp [htexts])
    -- The root has nothing but one empty text after its slash.
    have hroot : afterSlash (segments path) = [""] := by rw [afterSlash, if_pos hnil]
    rw [hroot] at htexts
    have hlength := congrArg List.length htexts
    have hafter := List.length_pos_of_ne_nil (rawSegments_ne_nil (String.ofList after))
    simp only [List.length_append, List.length_singleton] at hlength
    omega
  unslashed := by
    rintro ⟨before, hchars⟩
    have hpath : path = String.ofList before ++ "/" ++ "" := by
      rw [← String.toList_inj, ← hchars]
      simp
    obtain ⟨texts, htexts⟩ := h.exists_afterSlash_eq hpath
    rw [rawSegments_empty] at htexts
    have hnil : segments path = [] := segments_eq_nil_of_empty_mem (by simp [htexts])
    rw [← h, hnil]
    rfl

/-! ## Clean paths are normal -/

/-- No segment of a clean path is empty, but for the one before its first slash. -/
theorem IsClean.ne_empty_of_mem
    (h : IsClean path) (hpath : path = "/" ++ rest) (hrest : rest ≠ "") {t : String}
    (ht : t ∈ rawSegments rest) : t ≠ "" := by
  rintro rfl
  obtain ⟨before, after, hraw⟩ := List.append_of_mem ht
  have hsplit : path = "/".intercalate ("" :: before) ++ "/" ++ "/".intercalate ("" :: after) := by
    rw [← String.intercalate_append_of_ne_nil (by simp) (by simp), List.cons_append, ← hraw,
      String.intercalate_cons_of_ne_nil (rawSegments_ne_nil rest), intercalate_rawSegments, hpath,
      String.empty_append]
  cases after with
  | nil =>
      have hroot : path = "/" := by
        refine h.unslashed ⟨("/".intercalate ("" :: before)).toList, ?_⟩
        simp [hsplit, String.intercalate_singleton]
      rw [hpath] at hroot
      exact hrest (by simpa using hroot)
  | cons next after =>
      refine h.single ⟨("/".intercalate ("" :: before)).toList,
        ("/".intercalate (next :: after)).toList, ?_⟩
      simp [hsplit, String.intercalate_cons_cons]

theorem IsClean.isNormal (h : IsClean path) : IsNormal path := by
  obtain ⟨chars, hchars⟩ := h.rooted
  have hpath : path = "/" ++ String.ofList chars := by
    rw [← String.toList_inj, ← hchars]
    simp
  by_cases hrest : String.ofList chars = ""
  · rw [hpath, hrest]
    rfl
  · have hraw : rawSegments path = "" :: rawSegments (String.ofList chars) := by
      have h := rawSegments_append_slash_append "" (String.ofList chars)
      rwa [String.empty_append, ← hpath, rawSegments_empty] at h
    have hsegments : segments path = rawSegments (String.ofList chars) := by
      rw [segments, hraw, List.filter_cons_of_neg (by simp), List.filter_eq_self]
      intro t ht
      simpa using h.ne_empty_of_mem hpath hrest ht
    rw [IsNormal, ofSegments_eq, hsegments, intercalate_rawSegments, hpath]

/-! ## The join of two paths -/

/-- The normal paths are the clean ones, and those that are left as they are when nothing is joined
to them. -/
theorem join_empty_eq_self_iff : join path "" = path ↔ IsClean path := by
  have hnothing : segments "" = [] := rfl
  rw [join, hnothing, List.append_nil]
  exact ⟨IsNormal.isClean, IsClean.isNormal⟩

theorem join_assoc (a b c : String) : join (join a b) c = join a (join b c) := by
  rw [join, segments_join, List.append_assoc, ← segments_join b c, ← join]

/-- A slash before each segment that is not empty; the root if there is none. -/
theorem join_eq_of_splitsInto
    {a b : String} {texts' : List String} (ha : SplitsInto a texts) (hb : SplitsInto b texts') :
    join a b =
      if ∀ t ∈ texts ++ texts', t = "" then "/"
      else String.join (((texts ++ texts').filter (· ≠ "")).map ("/" ++ ·)) := by
  have hkept : segments a ++ segments b = (texts ++ texts').filter (· ≠ "") := by
    rw [segments, segments, splitsInto_iff.mp ha, splitsInto_iff.mp hb, ← List.filter_append]
    apply List.filter_congr
    intro t _
    rw [Bool.eq_iff_iff]
    simp
  have hroot : ((texts ++ texts').filter (· ≠ "")).isEmpty = true ↔
      ∀ t ∈ texts ++ texts', t = "" := by
    simp [List.filter_eq_nil_iff, or_imp, forall_and]
  simp only [join, ofSegments, hkept, hroot]

/-- Joining is an associative join of normal forms.  The join of two paths is the root if neither
has a segment that is not empty, and otherwise has a slash before each of these segments, first
those of the one and then those of the other.  So it begins with a slash, has no empty segment and,
the root apart, no slash at its end; the grouping of three paths makes no difference, and joining
nothing to a joined path changes nothing. -/
theorem join_writes_normal_form (a b c : String) :
    (∃ texts texts', SplitsInto a texts ∧ SplitsInto b texts' ∧
      join a b =
        if ∀ t ∈ texts ++ texts', t = "" then "/"
        else String.join (((texts ++ texts').filter (· ≠ "")).map ("/" ++ ·))) ∧
    IsClean (join a b) ∧
    join (join a b) c = join a (join b c) ∧
    join (join a b) "" = join a b := by
  have hclean : IsClean (join a b) := IsNormal.isClean (ofSegments_segments_join a b)
  have ha : SplitsInto a (rawSegments a) := splitsInto_iff.mpr rfl
  have hb : SplitsInto b (rawSegments b) := splitsInto_iff.mpr rfl
  exact ⟨⟨_, _, ha, hb, join_eq_of_splitsInto ha hb⟩, hclean, join_assoc a b c,
    join_empty_eq_self_iff.mpr hclean⟩

example : join "api/" "//users//\x7bid\x7d" = "/api/users/\x7bid\x7d" := by decide

end Path
end TypedRoutes
