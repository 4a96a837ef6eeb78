import Mathlib.Data.List.Induction
import Mathlib.Data.List.TakeWhile
import TypedRoutes.Proofs.Registration

/-!
# What the annotations of a record declare

The blocks of a record are merged in one pass: those of the other fields in their order, then that
of the marker.  A look-up in the extra information finds the last pair that was merged, and reserved
keys are passed over, so the metadata can be told from the marker alone wherever the marker has the
key.  A key that the marker repeats is read twice: its own fields take the first value, the extra
information has the last.
-/

namespace TypedRoutes
namespace Text

theorem strip_eq_nil_iff {p : Char → Bool} {cs : List Char} :
    strip p cs = [] ↔ ∀ c ∈ cs, p c = true := by
  rw [strip, List.reverse_eq_nil_iff, List.dropWhile_eq_nil_iff]
  constructor
  · intro h c hc
    rw [← List.takeWhile_append_dropWhile (p := p) (l := cs), List.mem_append] at hc
    rcases hc with hc | hc
    · exact List.mem_takeWhile_imp hc
    · exact h c (List.mem_reverse.mpr hc)
  · intro h c hc
    exact h c ((List.dropWhile_suffix p).subset (List.mem_reverse.mp hc))

/-- A text is blank exactly if nothing is left of it when it is trimmed. -/
theorem isBlankText_eq_false_iff {s : String} : isBlankText s = false ↔ trim s ≠ "" := by
  have hempty : trim s = "" ↔ strip isBlank s.toList = [] := by
    rw [trim, ← String.toList_inj, String.toList_ofList]
    rfl
  rw [ne_eq, hempty, strip_eq_nil_iff, isBlankText, Bool.eq_false_iff, ne_eq, List.all_eq_true]

end Text

/-! ## Repeated keys -/

namespace Attributes

variable {attributes : Attributes} {key value : String}

/-- The value of the last pair with a key. -/
def last? (attributes : Attributes) (key : String) : Option String :=
  attributes.pairs.reverse.lookup key

/-- No two pairs have the key. -/
def IsUnrepeated (attributes : Attributes) (key : String) : Prop :=
  (attributes.pairs.map Prod.fst).count key ≤ 1

instance (attributes : Attributes) (key : String) : Decidable (attributes.IsUnrepeated key) :=
  inferInstanceAs (Decidable (_ ≤ 1))

theorem mem_of_last? (h : attributes.last? key = some value) : (key, value) ∈ attributes.pairs := by
  obtain ⟨before, after, hpairs, -⟩ := List.lookup_eq_some_iff.mp h
  rw [← List.mem_reverse, hpairs]
  simp

theorem last?_eq_none_iff : attributes.last? key = none ↔ attributes.get? key = none := by
  rw [last?, get?, List.lookup_eq_none_iff, List.lookup_eq_none_iff]
  simp only [List.mem_reverse]

theorem isSome_last? : (attributes.last? key).isSome = (attributes.get? key).isSome := by
  rw [Bool.eq_iff_iff, Option.isSome_iff_ne_none, Option.isSome_iff_ne_none, ne_eq, ne_eq,
    last?_eq_none_iff]

theorem last?_concat (pairs : List (String × String)) (pair : String × String) (key : String) :
    last? ⟨pairs ++ [pair]⟩ key = if key = pair.1 then some pair.2 else last? ⟨pairs⟩ key := by
  rw [last?, List.reverse_append, List.reverse_singleton, List.singleton_append, List.lookup_cons]
  by_cases hkey : key = pair.1
  · simp [hkey]
  · have hbeq : (key == pair.1) = false := by simpa using hkey
    rw [hbeq, if_neg hkey, last?]

/-- The first and the last pair of a key that is not repeated are the same. -/
theorem IsUnrepeated.last?_eq_get?
    (h : attributes.IsUnrepeated key) : attributes.last? key = attributes.get? key := by
  cases hget : attributes.get? key with
  | none => exact last?_eq_none_iff.mpr hget
  | some value =>
      obtain ⟨before, after, hpairs, hbefore⟩ := List.lookup_eq_some_iff.mp hget
      have hafter : key ∉ after.map Prod.fst := by
        rw [IsUnrepeated, hpairs, List.map_append, List.map_cons, List.count_append,
          List.count_cons_self] at h
        exact List.count_eq_zero.mp (by omega)
      refine List.lookup_eq_some_iff.mpr ⟨after.reverse, before.reverse, by simp [hpairs], ?_⟩
      rintro ⟨k, v⟩ hmem
      simp only [bne_iff_ne]
      rintro rfl
      exact hafter (List.mem_map_of_mem (List.mem_reverse.mp hmem))

end Attributes

/-! ## Extra information -/

namespace RouteMeta

variable {info : RouteMeta} {r : Record} {own : Attributes} {others : List Attributes}
  {key value : String}

/-- One block puts its last values over what is there, reserved keys aside. -/
theorem find?_addExtra
    (reserved : List String) (extra : Members String) (attributes : Attributes) (key : String) :
    (addExtra reserved extra attributes).find? key =
      if key ∈ reserved then extra.find? key
      else (attributes.last? key).or (extra.find? key) := by
  obtain ⟨pairs⟩ := attributes
  induction pairs using List.reverseRecOn with
  | nil => simp [addExtra, Attributes.last?]
  | append_singleton pairs pair ih =>
      have hstep : addExtra reserved extra ⟨pairs ++ [pair]⟩ =
          if reserved.contains pair.1 then addExtra reserved extra ⟨pairs⟩
          else (addExtra reserved extra ⟨pairs⟩).insert pair.1 pair.2 := by
        simp [addExtra]
      rw [hstep, Attributes.last?_concat]
      by_cases hreserved : pair.1 ∈ reserved
      · rw [if_pos (by simpa using hreserved), ih]
        by_cases hkey : key = pair.1
        · simp [hkey, hreserved]
        · simp [hkey]
      · rw [if_neg (by simpa using hreserved)]
        by_cases hkey : key = pair.1
        · simp [hkey, hreserved, Members.find?_insert_self]
        · rw [Members.find?_insert_of_ne _ _ hkey, ih, if_neg hkey]

/-- Of several blocks the last that has a key decides. -/
theorem find?_foldl_addExtra
    (reserved : List String) (extra : Members String) (blocks : List Attributes) (key : String) :
    (blocks.foldl (addExtra reserved) extra).find? key =
      if key ∈ reserved then extra.find? key
      else (blocks.reverse.findSome? (·.last? key)).or (extra.find? key) := by
  induction blocks using List.reverseRecOn with
  | nil => simp
  | append_singleton blocks block ih =>
      rw [List.foldl_append, List.foldl_cons, List.foldl_nil, find?_addExtra, ih]
      by_cases hreserved : key ∈ reserved
      · simp [hreserved]
      · cases hlast : block.last? key <;> simp [hreserved, hlast]

/-- What the extra information has under a key.  The keys of the marker that have a place of their
own come from the other fields only, those that concern single fields from the marker only, and
every other key comes from the marker if it has it. -/
theorem DeclaredBy.find?_extra
    (h : info.DeclaredBy own others) (key : String) :
    info.extra.find? key =
      if key ∈ markerKeys then others.reverse.findSome? (·.last? key)
      else if key ∈ fieldKeys then own.last? key
      else (own.last? key).or (others.reverse.findSome? (·.last? key)) := by
  rw [h.extra, find?_addExtra, find?_foldl_addExtra]
  have hnone : Members.find? key ([] : Members String) = none := rfl
  by_cases hmarker : key ∈ markerKeys
  · have hdisjoint : ∀ k ∈ markerKeys, k ∉ fieldKeys := by decide
    simp [hmarker, hdisjoint key hmarker, hnone]
  · by_cases hfield : key ∈ fieldKeys <;> simp [hmarker, hfield, hnone]

theorem DeclaredBy.find?_extra_of_own
    (h : info.DeclaredBy own others) (hkey : key ∉ markerKeys) (hown : (own.get? key).isSome) :
    info.extra.find? key = own.last? key := by
  obtain ⟨value, hvalue⟩ := Option.isSome_iff_exists.mp (Attributes.isSome_last?.trans hown)
  rw [h.find?_extra, if_neg hkey, hvalue, Option.some_or, ite_self]

/-! ## When a record has metadata -/

/-- The blocks of the other fields can be read exactly if those that are not empty can. -/
theorem exists_others_iff :
    (∃ others, List.Forall₂ (fun f attributes => Attributes.read f.attributeText = .ok attributes)
        (r.fields.filter fun f => !f.marker && !f.attributeText.isEmpty) others) ↔
      ∀ f ∈ r.fields, f.marker = false →
        ∃ attributes, Attributes.read f.attributeText = .ok attributes := by
  simp only [← Results.mapM_eq_ok_iff, Results.exists_mapM_eq_ok_iff, List.mem_filter,
    Bool.and_eq_true, Bool.not_eq_true']
  constructor
  · intro h f hf hmarker
    by_cases hempty : f.attributeText = ""
    · exact ⟨⟨[]⟩, by rw [hempty]; rfl⟩
    · exact h f ⟨hf, hmarker, by simpa using hempty⟩
  · rintro h f ⟨hf, hmarker, -⟩
    exact h f hf hmarker

theorem exists_declaredBy_iff :
    (∃ info : RouteMeta, info.DeclaredBy own others) ↔
      ∀ key ∈ ["path", "method"], ∃ raw, own.get? key = some raw ∧ Text.trim raw ≠ "" := by
  simp only [List.forall_mem_cons, List.not_mem_nil, false_implies, implies_true, and_true,
    ← Text.isBlankText_eq_false_iff]
  constructor
  · rintro ⟨info, h⟩
    obtain ⟨path, hpath, hpathBlank, -⟩ := h.path
    obtain ⟨method, hmethod, hmethodBlank, -⟩ := h.method
    exact ⟨⟨path, hpath, hpathBlank⟩, method, hmethod, hmethodBlank⟩
  · rintro ⟨⟨path, hpath, hpathBlank⟩, method, hmethod, hmethodBlank⟩
    exact ⟨⟨_, _, _, _, _, _⟩, ⟨path, hpath, hpathBlank, rfl⟩, ⟨method, hmethod, hmethodBlank, rfl⟩,
      rfl, rfl, rfl, rfl⟩

/-- A record has metadata exactly if it has one marker, the blocks of all its fields can be read,
and the marker gives a path and a method. -/
theorem exists_ofRecord_iff :
    (∃ info, ofRecord r = .ok info) ↔
      ∃ marker own, r.fields.filter (·.marker) = [marker] ∧
        Attributes.read marker.attributeText = .ok own ∧
        (∀ f ∈ r.fields, f.marker = false →
          ∃ attributes, Attributes.read f.attributeText = .ok attributes) ∧
        ∀ key ∈ ["path", "method"], ∃ raw, own.get? key = some raw ∧ Text.trim raw ≠ "" := by
  simp only [ofRecord_eq_ok_iff]
  constructor
  · rintro ⟨info, own, others, hblocks, hdeclared⟩
    obtain ⟨marker, hmarkers, hown⟩ := hblocks.own
    exact ⟨marker, own, hmarkers, hown, exists_others_iff.mp ⟨others, hblocks.others⟩,
      exists_declaredBy_iff.mp ⟨info, hdeclared⟩⟩
  · rintro ⟨marker, own, hmarkers, hown, hreads, hkeys⟩
    obtain ⟨others, hothers⟩ := exists_others_iff.mpr hreads
    obtain ⟨info, hdeclared⟩ : ∃ info : RouteMeta, info.DeclaredBy own others :=
      exists_declaredBy_iff.mpr hkeys
    exact ⟨info, own, others, ⟨⟨marker, hmarkers, hown⟩, hothers⟩, hdeclared⟩

end RouteMeta

/-! ## Records that differ in the annotations of other fields -/

/-- The field has a pair in its block. -/
def Field.Annotates (f : Field) (key value : String) : Prop :=
  ∃ attributes, Attributes.read f.attributeText = .ok attributes ∧ (key, value) ∈ attributes.pairs

/-- Two records that differ at most in the annotations of fields that are no markers. -/
structure Record.SameButOthers (r r' : Record) : Prop where
  name : r'.name = r.name
  doc : r'.doc = r.doc
  fields : List.Forall₂ (fun f f' => f' = f ∨ f.marker = false ∧
    f' = { f with attributeText := f'.attributeText }) r.fields r'.fields

theorem Record.SameButOthers.markers
    {r r' : Record} (h : r.SameButOthers r') :
    r'.fields.filter (·.marker) = r.fields.filter (·.marker) := by
  have hfields := h.fields
  generalize r.fields = fields, r'.fields = fields' at hfields ⊢
  induction hfields with
  | nil => rfl
  | cons hsame _ ih =>
      rcases hsame with rfl | ⟨hmarker, hsame⟩
      · rw [List.filter_cons, List.filter_cons, ih]
      · have hmarker' : _ = false := (congrArg Field.marker hsame).trans hmarker
        simp [hmarker, hmarker', ih]

namespace RouteMeta

variable {info info' : RouteMeta} {r r' : Record} {own own' : Attributes}
  {others others' : List Attributes} {key value : String}

theorem Blocks.own_eq
    (h : Blocks r own others) (h' : Blocks r' own' others')
    (hmarkers : r'.fields.filter (·.marker) = r.fields.filter (·.marker)) : own' = own := by
  obtain ⟨marker, hmarker, hown⟩ := h.own
  obtain ⟨marker', hmarker', hown'⟩ := h'.own
  obtain rfl : marker' = marker := by simpa [hmarker, hmarker'] using hmarkers
  exact Except.ok.inj (hown'.symm.trans hown)

theorem Blocks.exists_marker_annotates
    (h : Blocks r own others) (hvalue : own.last? key = some value) :
    ∃ f ∈ r.fields, f.marker = true ∧ f.Annotates key value := by
  obtain ⟨marker, hmarkers, hown⟩ := h.own
  obtain ⟨hmem, hmarker⟩ := List.mem_filter.mp (hmarkers ▸ List.mem_singleton_self marker)
  exact ⟨marker, hmem, hmarker, own, hown, Attributes.mem_of_last? hvalue⟩

theorem Blocks.exists_other_annotates
    (h : Blocks r own others)
    (hvalue : others.reverse.findSome? (·.last? key) = some value) :
    ∃ f ∈ r.fields, f.marker = false ∧ f.Annotates key value := by
  obtain ⟨block, hblock, hlast⟩ := List.exists_of_findSome?_eq_some hvalue
  obtain ⟨f, hf, hread⟩ := Results.exists_left_of_forall₂ h.others (List.mem_reverse.mp hblock)
  obtain ⟨hmem, hother⟩ := List.mem_filter.mp hf
  have hmarker : f.marker = false := by
    rw [Bool.and_eq_true, Bool.not_eq_true'] at hother
    exact hother.1
  exact ⟨f, hmem, hmarker, block, hread, Attributes.mem_of_last? hlast⟩

/-- The marker's block fixes all metadata but the extra information, and that as well under the keys
that it has. -/
theorem DeclaredBy.agree
    (h : info.DeclaredBy own others) (h' : info'.DeclaredBy own others') :
    info'.path = info.path ∧ info'.method = info.method ∧ info'.summary = info.summary ∧
      info'.tags = info.tags ∧ info'.description = info.description ∧
      ∀ key, key ∉ markerKeys → (own.get? key).isSome →
        info'.extra.find? key = info.extra.find? key := by
  refine ⟨?_, ?_, h'.summary.trans h.summary.symm, h'.tags.trans h.tags.symm,
    h'.description.trans h.description.symm, ?_⟩
  · obtain ⟨raw, hraw, -, hpath⟩ := h.path
    obtain ⟨raw', hraw', -, hpath'⟩ := h'.path
    obtain rfl : raw' = raw := Option.some.inj (hraw'.symm.trans hraw)
    exact hpath'.trans hpath.symm
  · obtain ⟨raw, hraw, -, hmethod⟩ := h.method
    obtain ⟨raw', hraw', -, hmethod'⟩ := h'.method
    obtain rfl : raw' = raw := Option.some.inj (hraw'.symm.trans hraw)
    exact hmethod'.trans hmethod.symm
  · intro key hkey hown
    rw [h.find?_extra_of_own hkey hown, h'.find?_extra_of_own hkey hown]

end RouteMeta

namespace TypeTable

variable {types : TypeTable} {t : Ty} {id : String} {r : Record} {info : RouteMeta}

theorem routeMeta_of_record? (hr : types.record? t = some (id, r)) :
    types.routeMeta t = RouteMeta.ofRecord r := by
  rw [routeMeta, hr]

/-- The annotations of other fields cannot change the route.  A record has metadata exactly if it
has one marker, the blocks of all its fields can be read and the marker gives a path and a method.
Two records that differ in the annotations of other fields have the same path, method, summary, tags
and description, and the same extra information under every key of the marker that has no place of
its own.  Reserved keys get into the extra information from the other side only: those that concern
a single field from the marker, and those that have a place of their own from another field. -/
theorem other_annotations_keep_route (hr : types.record? t = some (id, r)) :
    ((∃ info, types.routeMeta t = .ok info) ↔
      ∃ marker own, r.fields.filter (·.marker) = [marker] ∧
        Attributes.read marker.attributeText = .ok own ∧
        (∀ f ∈ r.fields, f.marker = false →
          ∃ attributes, Attributes.read f.attributeText = .ok attributes) ∧
        ∀ key ∈ ["path", "method"], ∃ raw, own.get? key = some raw ∧ Text.trim raw ≠ "") ∧
    (∀ (types' : TypeTable) (t' : Ty) (id' : String) (r' : Record),
      types'.record? t' = some (id', r') → r.SameButOthers r' →
      ∀ info info', types.routeMeta t = .ok info → types'.routeMeta t' = .ok info' →
        info'.path = info.path ∧ info'.method = info.method ∧ info'.summary = info.summary ∧
          info'.tags = info.tags ∧ info'.description = info.description ∧
          ∀ key, key ∉ RouteMeta.markerKeys → (types.annotation? t key).isSome →
            info'.extra.find? key = info.extra.find? key) ∧
    ∀ info, types.routeMeta t = .ok info → ∀ key value, info.extra.find? key = some value →
      (key ∈ RouteMeta.fieldKeys → ∃ f ∈ r.fields, f.marker = true ∧ f.Annotates key value) ∧
      (key ∈ RouteMeta.markerKeys →
        ∃ f ∈ r.fields, f.marker = false ∧ f.Annotates key value) := by
  refine ⟨?_, ?_, ?_⟩
  · rw [routeMeta_of_record? hr]
    exact RouteMeta.exists_ofRecord_iff
  · intro types' t' id' r' hr' hsame info info' hinfo hinfo'
    obtain ⟨_, _, own, others, hrecord, hblocks, hdeclared, hkeys⟩ :=
      exists_blocks_of_routeMeta hinfo
    obtain ⟨_, _, own', others', hrecord', hblocks', hdeclared', -⟩ :=
      exists_blocks_of_routeMeta hinfo'
    obtain ⟨rfl, rfl⟩ := Prod.mk.inj (Option.some.inj (hr.symm.trans hrecord))
    obtain ⟨rfl, rfl⟩ := Prod.mk.inj (Option.some.inj (hr'.symm.trans hrecord'))
    obtain rfl := hblocks.own_eq hblocks' hsame.markers
    simp only [hkeys]
    exact hdeclared.agree hdeclared'
  · intro info hinfo key value hvalue
    obtain ⟨_, _, own, others, hrecord, hblocks, hdeclared, -⟩ := exists_blocks_of_routeMeta hinfo
    obtain ⟨rfl, rfl⟩ := Prod.mk.inj (Option.some.inj (hr.symm.trans hrecord))
    rw [hdeclared.find?_extra] at hvalue
    constructor
    · intro hkey
      have hdisjoint : ∀ k ∈ RouteMeta.fieldKeys, k ∉ RouteMeta.markerKeys := by decide
      rw [if_neg (hdisjoint key hkey), if_pos hkey] at hvalue
      exact hblocks.exists_marker_annotates hvalue
    · intro hkey
      rw [if_pos hkey] at hvalue
      exact hblocks.exists_other_annotates hvalue

/-- A request for items whose other field has an annotation of its own. -/
def itemsRecord (block : String) : Record where
  name := "ItemsReq"
  fields := [
    ⟨"meta", "meta", .marker, "path:\"/items\" method:\"get\" owner:\"shop\" v:\"2\"", none, false,
      true⟩,
    ⟨"kind", "kind", .scalar .string, block, none, false, false⟩]
  doc := none

/-- The table with that request alone. -/
def itemsTypes (block : String) : TypeTable :=
  ⟨[("ItemsReq", .record (itemsRecord block))]⟩

/-- An annotation that claims the route and the owner for another field. -/
def rivalBlock : String :=
  "path:\"/all\" owner:\"me\" v:\"required\""

/-- A field that claims the route and the owner for itself gets neither; its path is no more than
extra information. -/
theorem other_annotations_keep_route_items :
    ∃ info info', (itemsTypes "").routeMeta (.named "ItemsReq") = .ok info ∧
      (itemsTypes rivalBlock).routeMeta (.named "ItemsReq") = .ok info' ∧
      info'.path = info.path ∧ info'.extra.find? "owner" = info.extra.find? "owner" ∧
      info'.extra.find? "path" = some "/all" ∧
      ∃ f ∈ (itemsRecord rivalBlock).fields, f.marker = false ∧ f.Annotates "path" "/all" := by
  have hr : (itemsTypes "").record? (.named "ItemsReq") = some ("ItemsReq", itemsRecord "") := rfl
  have hr' : (itemsTypes rivalBlock).record? (.named "ItemsReq") =
      some ("ItemsReq", itemsRecord rivalBlock) := rfl
  have hsame : (itemsRecord "").SameButOthers (itemsRecord rivalBlock) :=
    ⟨rfl, rfl, .cons (.inl rfl) (.cons (.inr ⟨rfl, rfl⟩) .nil)⟩
  have hcomputed : ((itemsTypes "").routeMeta (.named "ItemsReq")).toOption.map (·.path) =
      some "/items" := by decide
  have hcomputed' : ((itemsTypes rivalBlock).routeMeta (.named "ItemsReq")).toOption.map
      (·.extra.find? "path") = some (some "/all") := by decide
  obtain ⟨info, hinfo, -⟩ := Results.exists_of_toOption_map hcomputed
  obtain ⟨info', hinfo', hpath⟩ := Results.exists_of_toOption_map hcomputed'
  obtain ⟨-, hkept, -⟩ := other_annotations_keep_route hr
  obtain ⟨-, -, hreserved⟩ := other_annotations_keep_route hr'
  obtain ⟨hroute, -, -, -, -, hextra⟩ := hkept _ _ _ _ hr' hsame info info' hinfo hinfo'
  exact ⟨info, info', hinfo, hinfo', hroute, hextra "owner" (by decide) (by decide), hpath,
    (hreserved info' hinfo' "path" "/all" hpath).2 (by decide)⟩

/-! ## Keys that the marker repeats -/

/-- A key of the marker that has no place of its own is found in the extra information with its last
value.  That is the first one, by which the attributes themselves and the description answer, for
every key that is not repeated. -/
theorem extra_has_last_value (h : types.routeMeta t = .ok info) :
    ∃ id r marker own, types.record? t = some (id, r) ∧
      r.fields.filter (·.marker) = [marker] ∧ Attributes.read marker.attributeText = .ok own ∧
      (∀ key, key ∉ RouteMeta.markerKeys → (own.get? key).isSome →
        info.extra.find? key = own.last? key ∧
        (own.IsUnrepeated key → info.extra.find? key = own.get? key)) ∧
      (∀ value, own.get? "description" = some value → info.description = value ∧
        info.extra.find? "description" = own.last? "description" ∧
        (own.IsUnrepeated "description" →
          info.extra.find? "description" = some info.description)) ∧
      (own.get? "description" = none → ∀ value, own.get? "dc" = some value →
        info.description = value ∧ info.extra.find? "dc" = own.last? "dc" ∧
        (own.IsUnrepeated "dc" → info.extra.find? "dc" = some info.description)) := by
  obtain ⟨id, r, own, others, hr, hblocks, hdeclared, -⟩ := exists_blocks_of_routeMeta h
  obtain ⟨marker, hmarkers, hown⟩ := hblocks.own
  have hlast : ∀ key, key ∉ RouteMeta.markerKeys → (own.get? key).isSome →
      info.extra.find? key = own.last? key ∧
      (own.IsUnrepeated key → info.extra.find? key = own.get? key) := by
    intro key hkey hsome
    have hextra := hdeclared.find?_extra_of_own hkey hsome
    exact ⟨hextra, fun honce => hextra.trans honce.last?_eq_get?⟩
  refine ⟨id, r, marker, own, hr, hmarkers, hown, hlast, ?_, ?_⟩
  · intro value hvalue
    have hdescription : info.description = value := by simp [hdeclared.description, hvalue]
    obtain ⟨hextra, honce⟩ := hlast "description" (by decide) (by simp [hvalue])
    exact ⟨hdescription, hextra, fun h => by rw [honce h, hvalue, hdescription]⟩
  · intro hnone value hvalue
    have hdescription : info.description = value := by simp [hdeclared.description, hnone, hvalue]
    obtain ⟨hextra, honce⟩ := hlast "dc" (by decide) (by simp [hvalue])
    exact ⟨hdescription, hextra, fun h => by rw [honce h, hvalue, hdescription]⟩

/-- A request with some annotations on its marker and no other field. -/
def markerTypes (block : String) : TypeTable :=
  ⟨[("SearchReq", .record ⟨"SearchReq", [⟨"meta", "meta", .marker, block, none, false, true⟩],
    none⟩)]⟩

/-- The description under its other name is found in the extra information, too. -/
theorem extra_has_last_value_search :
    ∃ info, (markerTypes "path:\"/search\" method:\"GET\" dc:\"Finds\"").routeMeta
        (.named "SearchReq") = .ok info ∧
      info.description = "Finds" ∧ info.extra.find? "dc" = some "Finds" := by
  have hcomputed : ((markerTypes "path:\"/search\" method:\"GET\" dc:\"Finds\"").routeMeta
      (.named "SearchReq")).toOption.map (·.path) = some "/search" := by decide
  have hread : Attributes.read "path:\"/search\" method:\"GET\" dc:\"Finds\"" =
      .ok ⟨[("path", "/search"), ("method", "GET"), ("dc", "Finds")]⟩ := by decide
  obtain ⟨info, hinfo, -⟩ := Results.exists_of_toOption_map hcomputed
  obtain ⟨_, _, marker, own, hr, hmarkers, hown, -, -, hdc⟩ := extra_has_last_value hinfo
  obtain ⟨rfl, rfl⟩ := Prod.mk.inj (Option.some.inj hr)
  obtain rfl := List.singleton_inj.mp hmarkers
  obtain rfl := Except.ok.inj (hread.symm.trans hown)
  obtain ⟨hdescription, -, honce⟩ := hdc (by decide) "Finds" (by decide)
  exact ⟨info, hinfo, hdescription, (honce (by decide)).trans (by rw [hdescription])⟩

/-- An annotation that describes a search twice. -/
def describedTwice : String :=
  "path:\"/search\" method:\"GET\" description:\"Finds\" description:\"Looks up\""

/-- Of two descriptions on the marker the first is the description, and the second is found in the
extra information. -/
theorem repeated_description_read_apart :
    ∃ info, (markerTypes describedTwice).routeMeta (.named "SearchReq") = .ok info ∧
      (markerTypes describedTwice).annotation? (.named "SearchReq") "description" = some "Finds" ∧
      info.description = "Finds" ∧ info.extra.find? "description" = some "Looks up" := by
  have hcomputed : ((markerTypes describedTwice).routeMeta (.named "SearchReq")).toOption.map
      (fun info => (info.description, info.extra.find? "description")) =
      some ("Finds", some "Looks up") := by decide
  obtain ⟨info, hinfo, hvalues⟩ := Results.exists_of_toOption_map hcomputed
  obtain ⟨hdescription, hextra⟩ := Prod.mk.inj hvalues
  exact ⟨info, hinfo, by decide, hdescription, hextra⟩

end TypeTable
end TypedRoutes
