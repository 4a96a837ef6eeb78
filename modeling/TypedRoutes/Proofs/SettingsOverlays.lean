import Mathlib.Data.List.Induction
import TypedRoutes.Settings.Service

/-!
# Overlays of settings

An overlay takes the settings in a fixed order and stops at the first size that cannot be read; what
it has written by then stays written.  Only an overlay that gets through is checked, and the check
looks at all settings, wherever they come from.  So settings are usable after every overlay that
succeeds, whatever was overlaid before, but after one that fails they need not be.
-/

namespace TypedRoutes

/-! ## Settings by name -/

/-- The settings, in the order in which an overlay takes them. -/
inductive Setting
  | bind
  | stackSize
  | docsPath
  | maxBodyBytes
  deriving DecidableEq

/-- What a setting is set to. -/
inductive SettingContent
  | text (s : String)
  | size (n : Nat)
  deriving DecidableEq

namespace Setting

/-- The place of a setting in the order. -/
def place : Setting → Nat
  | bind => 0
  | stackSize => 1
  | docsPath => 2
  | maxBodyBytes => 3

/-- All settings. -/
def all : List Setting :=
  [bind, stackSize, docsPath, maxBodyBytes]

theorem mem_all (x : Setting) : x ∈ all := by
  cases x <;> decide

/-- The name of a setting in a file. -/
def name : Setting → String
  | bind => "bind"
  | stackSize => "stack_size"
  | docsPath => "docs_path"
  | maxBodyBytes => "max_body_bytes"

end Setting

namespace ServiceSettings

/-- The content of a setting. -/
def content (s : ServiceSettings) : Setting → SettingContent
  | .bind => .text s.bind
  | .stackSize => .size s.stackSize
  | .docsPath => .text s.docsPath
  | .maxBodyBytes => .size s.maxBodyBytes

/-- Settings that a service can run with. -/
structure IsUsable (s : ServiceSettings) : Prop where
  bind : ∃ c ∈ s.bind.toList, Text.isBlank c = false
  docsPath : ∃ rest, s.docsPath.toList = '/' :: rest
  stackSize : 0 < s.stackSize

theorem isValid_iff_isUsable {s : ServiceSettings} : s.IsValid ↔ s.IsUsable := by
  have hbind : Text.isBlankText s.bind = false ↔ ∃ c ∈ s.bind.toList, Text.isBlank c = false := by
    simp [Text.isBlankText]
  have hpath : s.docsPath.toList.head? = some '/' ↔ ∃ rest, s.docsPath.toList = '/' :: rest := by
    rw [List.head?_eq_some_iff]
  unfold IsValid fault?
  constructor
  · intro h
    split at h
    · simp at h
    · rename_i hblank
      split at h
      · simp at h
      · rename_i hrooted
        split at h
        · simp at h
        · rename_i hpositive
          refine ⟨hbind.mp (by simpa using hblank), hpath.mp (by simpa using hrooted), ?_⟩
          omega
  · rintro ⟨hblank, hrooted, hpositive⟩
    rw [if_neg (by simp [hbind.mpr hblank]), if_neg (by simp [hpath.mpr hrooted]),
      if_neg (Nat.ne_of_gt hpositive)]

end ServiceSettings

/-! ## What an overlay gives -/

namespace SizeSetting

/-- The number of bytes that a size stands for. -/
def value? : SizeSetting → Option Nat
  | number n => some n
  | text raw => readSize? raw

/-- The text of a size that cannot be read. -/
def misread? : SizeSetting → Option String
  | number _ => none
  | text raw => if (readSize? raw).isSome then none else some raw

end SizeSetting

namespace SettingsOverlay

variable {o : SettingsOverlay} {s : ServiceSettings} {x : Setting} {raw : String}

/-- What an overlay gives for a setting. -/
def given? (o : SettingsOverlay) : Setting → Option SettingContent
  | .bind => o.bind.map .text
  | .stackSize => (o.stackSize.bind SizeSetting.value?).map .size
  | .docsPath => o.docsPath.map .text
  | .maxBodyBytes => (o.maxBodyBytes.bind SizeSetting.value?).map .size

/-- The text that an overlay gives for a size, if it cannot be read as one. -/
def misread? (o : SettingsOverlay) : Setting → Option String
  | .stackSize => o.stackSize.bind SizeSetting.misread?
  | .maxBodyBytes => o.maxBodyBytes.bind SizeSetting.misread?
  | .bind | .docsPath => none

/-- An overlay gets to a setting if it can read all sizes up to there. -/
def Reaches (o : SettingsOverlay) (x : Setting) : Prop :=
  ∀ y, y.place ≤ x.place → o.misread? y = none

instance : DecidablePred o.Reaches :=
  fun x => decidable_of_iff (∀ y ∈ Setting.all, y.place ≤ x.place → o.misread? y = none)
    ⟨fun h y => h y y.mem_all, fun h y _ => h y⟩

/-- The first size of an overlay that cannot be read. -/
structure StopsAt (o : SettingsOverlay) (x : Setting) (raw : String) : Prop where
  misread : o.misread? x = some raw
  before : ∀ y, y.place < x.place → o.misread? y = none

/-- What an overlay writes for a setting. -/
def written? (o : SettingsOverlay) (x : Setting) : Option SettingContent :=
  if o.Reaches x then o.given? x else none

theorem size_eq
    (o : SettingsOverlay) (name : String) (current : Nat) (given : Option SizeSetting) :
    o.size name current given =
      match given.bind SizeSetting.misread? with
      | some raw => .error (.invalid (o.source.key name) raw .notASize)
      | none => .ok ((given.bind SizeSetting.value?).getD current) := by
  rcases given with _ | n | raw
  · rfl
  · rfl
  · cases hread : readSize? raw with
    | none => simp [size, SizeSetting.misread?, hread]
    | some n => simp [size, SizeSetting.misread?, SizeSetting.value?, hread]

theorem StopsAt.stackSize_or_maxBodyBytes
    (h : o.StopsAt x raw) :
    x = .stackSize ∧ o.misread? .stackSize = some raw ∨
      x = .maxBodyBytes ∧ o.misread? .stackSize = none ∧ o.misread? .maxBodyBytes = some raw := by
  have hmisread := h.misread
  cases x with
  | bind => cases hmisread
  | stackSize => exact .inl ⟨rfl, hmisread⟩
  | docsPath => cases hmisread
  | maxBodyBytes => exact .inr ⟨rfl, h.before .stackSize (by decide), hmisread⟩

/-- Either all sizes of an overlay can be read, or one is the first that cannot. -/
theorem forall_read_or_stopsAt
    (o : SettingsOverlay) : (∀ x, o.misread? x = none) ∨ ∃ x raw, o.StopsAt x raw := by
  cases hstack : o.misread? .stackSize with
  | some raw =>
      refine .inr ⟨.stackSize, raw, hstack, ?_⟩
      intro y hy
      cases y with
      | bind => rfl
      | stackSize | docsPath | maxBodyBytes => simp [Setting.place] at hy
  | none =>
      cases hbody : o.misread? .maxBodyBytes with
      | some raw =>
          refine .inr ⟨.maxBodyBytes, raw, hbody, ?_⟩
          intro y hy
          cases y with
          | bind | docsPath => rfl
          | stackSize => exact hstack
          | maxBodyBytes => simp [Setting.place] at hy
      | none =>
          left
          intro x
          cases x with
          | bind | docsPath => rfl
          | stackSize => exact hstack
          | maxBodyBytes => exact hbody

theorem StopsAt.reaches_iff
    (h : o.StopsAt x raw) (y : Setting) : o.Reaches y ↔ y.place < x.place := by
  constructor
  · intro hreaches
    by_contra hplace
    have hread := hreaches x (by omega)
    rw [h.misread] at hread
    cases hread
  · intro hplace z hz
    exact h.before z (by omega)

theorem StopsAt.written?_eq
    (h : o.StopsAt x raw) (y : Setting) :
    o.written? y = if y.place < x.place then o.given? y else none := by
  simp only [written?, h.reaches_iff]

theorem written?_of_read
    (h : ∀ x, o.misread? x = none) (x : Setting) : o.written? x = o.given? x :=
  if_pos fun y _ => h y

/-- Every setting is either overlaid or kept. -/
theorem content_apply
    (o : SettingsOverlay) (s : ServiceSettings) (x : Setting) :
    (o.apply s).1.content x = (o.written? x).getD (s.content x) := by
  rcases o.forall_read_or_stopsAt with hread | ⟨y, raw, hstop⟩
  · have hstack := hread .stackSize
    have hbody := hread .maxBodyBytes
    rw [written?_of_read hread]
    simp only [misread?] at hstack hbody
    simp only [apply, size_eq, hstack, hbody]
    cases x <;> simp only [ServiceSettings.content, given?, Option.getD_map]
  · rw [hstop.written?_eq]
    rcases hstop.stackSize_or_maxBodyBytes with ⟨rfl, hstack⟩ | ⟨rfl, hstack, hbody⟩
    · simp only [misread?] at hstack
      simp only [apply, size_eq, hstack]
      cases x <;> simp [ServiceSettings.content, given?, Setting.place]
    · simp only [misread?] at hstack hbody
      simp only [apply, size_eq, hstack, hbody]
      cases x <;> simp [ServiceSettings.content, given?, Setting.place, -Option.map_bind]

theorem error_apply_of_stopsAt
    (h : o.StopsAt x raw) (s : ServiceSettings) :
    (o.apply s).2 = some (.invalid (o.source.key x.name) raw .notASize) := by
  rcases h.stackSize_or_maxBodyBytes with ⟨rfl, hstack⟩ | ⟨rfl, hstack, hbody⟩
  · have hsize := o.size_eq "stack_size" s.stackSize o.stackSize
    simp only [misread?] at hstack
    simp only [hstack] at hsize
    simp only [apply, hsize]
    rfl
  · simp only [misread?] at hstack hbody
    simp only [apply, size_eq, hstack, hbody]
    rfl

theorem error_apply_of_read
    (h : ∀ x, o.misread? x = none) (s : ServiceSettings) :
    (o.apply s).2 = (o.apply s).1.fault? := by
  have hstack := h .stackSize
  have hbody := h .maxBodyBytes
  simp only [misread?] at hstack hbody
  simp only [apply, size_eq, hstack, hbody]

end SettingsOverlay

/-! ## Calls that overlay settings -/

/-- A call that overlays settings: with those of a file, as far as its text can be had, or with
those of the environment. -/
inductive SettingsCall
  | file (text? : Option String)
  | environment (lookup : String → Option String)

namespace SettingsCall

/-- The overlay that a call applies. -/
def overlay? : SettingsCall → Except SettingsError SettingsOverlay
  | file (some text) => SettingsOverlay.ofFile text
  | file none => .error .unreadable
  | environment lookup => .ok (SettingsOverlay.ofEnvironment lookup)

/-- Settings after a call, and what was wrong. -/
def run (call : SettingsCall) (s : ServiceSettings) : ServiceSettings × Option SettingsError :=
  match call with
  | file (some text) => s.applyFile text
  | file none => (s, some .unreadable)
  | environment lookup => s.applyEnvironment lookup

/-- What a call writes for a setting. -/
def written? (call : SettingsCall) (x : Setting) : Option SettingContent :=
  match call.overlay? with
  | .ok o => o.written? x
  | .error _ => none

/-- Settings after calls one after another, which go on after a failure. -/
def runAll (s : ServiceSettings) (calls : List SettingsCall) : ServiceSettings :=
  calls.foldl (fun s call => (call.run s).1) s

variable {call : SettingsCall} {s : ServiceSettings} {o : SettingsOverlay} {e : SettingsError}

theorem run_of_overlay (h : call.overlay? = .ok o) (s : ServiceSettings) :
    call.run s = o.apply s := by
  rcases call with (_ | text) | lookup
  · cases h
  · have hfile : SettingsOverlay.ofFile text = .ok o := h
    simp only [run, ServiceSettings.applyFile, hfile]
  · obtain rfl := Except.ok.inj h
    rfl

theorem run_of_no_overlay (h : call.overlay? = .error e) (s : ServiceSettings) :
    call.run s = (s, some e) := by
  rcases call with (_ | text) | lookup
  · obtain rfl := Except.error.inj h
    rfl
  · have hfile : SettingsOverlay.ofFile text = .error e := h
    simp only [run, ServiceSettings.applyFile, hfile]
  · cases h

theorem content_run
    (call : SettingsCall) (s : ServiceSettings) (x : Setting) :
    (call.run s).1.content x = (call.written? x).getD (s.content x) := by
  cases h : call.overlay? with
  | error e => rw [run_of_no_overlay h, written?, h, Option.getD_none]
  | ok o => rw [run_of_overlay h, written?, h, o.content_apply]

/-- A setting has the content that was written last. -/
theorem content_runAll
    (s : ServiceSettings) (calls : List SettingsCall) (x : Setting) :
    (runAll s calls).content x =
      (calls.reverse.findSome? (·.written? x)).getD (s.content x) := by
  induction calls using List.reverseRecOn with
  | nil => rfl
  | append_singleton calls last ih =>
      rw [runAll, List.foldl_append, List.foldl_cons, List.foldl_nil, content_run,
        List.reverse_concat, List.findSome?_cons]
      cases last.written? x with
      | none => exact ih
      | some content => rfl

theorem accepted_of_run
    (h : (call.run s).2 = none) :
    ∃ o, call.overlay? = .ok o ∧ (∀ x, o.misread? x = none) ∧ (call.run s).1.IsUsable := by
  cases hoverlay : call.overlay? with
  | error e =>
      rw [run_of_no_overlay hoverlay] at h
      cases h
  | ok o =>
      rw [run_of_overlay hoverlay] at h ⊢
      rcases o.forall_read_or_stopsAt with hread | ⟨x, raw, hstop⟩
      · rw [SettingsOverlay.error_apply_of_read hread] at h
        exact ⟨o, rfl, hread, ServiceSettings.isValid_iff_isUsable.mp h⟩
      · rw [SettingsOverlay.error_apply_of_stopsAt hstop] at h
        cases h

/-- A call that succeeds has overlaid everything that it gives, kept everything else and left usable
settings, whatever they were before.  A call that fails has changed nothing if it has no overlay.
Else it has overlaid the settings up to the first size that it cannot read, or all of them, and left
settings that are not usable.  So after calls one after another, some of which may fail, every
setting has the content that was written last, and the settings are usable if the last call
succeeded. -/
theorem overlays_checked_not_undone (s : ServiceSettings) :
    (∀ call : SettingsCall, (call.run s).2 = none →
      ∃ o, call.overlay? = .ok o ∧ (∀ x, o.misread? x = none) ∧
        (∀ x, (call.run s).1.content x = (o.given? x).getD (s.content x)) ∧
        (call.run s).1.IsUsable) ∧
    (∀ (call : SettingsCall) (e : SettingsError), (call.run s).2 = some e →
      call.overlay? = .error e ∧ (call.run s).1 = s ∨
      ∃ o, call.overlay? = .ok o ∧
        ((∃ x raw, o.StopsAt x raw ∧ e = .invalid (o.source.key x.name) raw .notASize ∧
            ∀ y, (call.run s).1.content y =
              if y.place < x.place then (o.given? y).getD (s.content y) else s.content y) ∨
          (∀ x, o.misread? x = none) ∧ (call.run s).1.fault? = some e ∧
            ¬(call.run s).1.IsUsable ∧
            ∀ x, (call.run s).1.content x = (o.given? x).getD (s.content x))) ∧
    ∀ calls : List SettingsCall,
      (∀ x, (runAll s calls).content x =
        (calls.reverse.findSome? (·.written? x)).getD (s.content x)) ∧
      ∀ last : SettingsCall, (last.run (runAll s calls)).2 = none →
        (runAll s (calls ++ [last])).IsUsable := by
  refine ⟨?_, ?_, ?_⟩
  · intro call h
    obtain ⟨o, hoverlay, hread, husable⟩ := accepted_of_run h
    refine ⟨o, hoverlay, hread, ?_, husable⟩
    intro x
    rw [run_of_overlay hoverlay, o.content_apply, SettingsOverlay.written?_of_read hread]
  · intro call e h
    cases hoverlay : call.overlay? with
    | error e' =>
        rw [run_of_no_overlay hoverlay] at h ⊢
        obtain rfl := Option.some.inj h
        exact .inl ⟨rfl, rfl⟩
    | ok o =>
        rw [run_of_overlay hoverlay] at h ⊢
        refine .inr ⟨o, rfl, ?_⟩
        rcases o.forall_read_or_stopsAt with hread | ⟨x, raw, hstop⟩
        · right
          have hfault := SettingsOverlay.error_apply_of_read hread s
          rw [h] at hfault
          refine ⟨hread, hfault.symm, ?_, ?_⟩
          · rw [← ServiceSettings.isValid_iff_isUsable, ServiceSettings.IsValid, ← hfault]
            exact Option.some_ne_none e
          · intro x
            rw [o.content_apply, SettingsOverlay.written?_of_read hread]
        · left
          rw [SettingsOverlay.error_apply_of_stopsAt hstop] at h
          refine ⟨x, raw, hstop, (Option.some.inj h).symm, ?_⟩
          intro y
          rw [o.content_apply, hstop.written?_eq]
          split
          · rfl
          · rfl
  · intro calls
    refine ⟨content_runAll s calls, ?_⟩
    intro last h
    obtain ⟨-, -, -, husable⟩ := accepted_of_run h
    rwa [runAll, List.foldl_append]

/-! ## Calls that fail and a call that succeeds -/

/-- The environment with some variables. -/
def ofVariables (values : List (String × String)) : SettingsCall :=
  .environment fun name => values.lookup name

/-- A blank address and a stack size that is not a size. -/
def misgiven : SettingsCall :=
  ofVariables [("METAROUTE_BIND", " "), ("METAROUTE_STACK_SIZE", "big")]

/-- An address and a stack size. -/
def wellGiven : SettingsCall :=
  ofVariables [("METAROUTE_BIND", "0.0.0.0:9000"), ("METAROUTE_STACK_SIZE", "0x8000")]

/-- A later overlay that succeeds makes up for a failure. -/
theorem overlays_checked_not_undone_recovery :
    (misgiven.run .default).2 = some (.invalid "METAROUTE_STACK_SIZE" "big" .notASize) ∧
      (wellGiven.run (runAll .default [misgiven])).2 = none ∧
      (runAll .default ([misgiven] ++ [wellGiven])).IsUsable ∧
      (runAll .default [misgiven]).content .bind = .text " " := by
  have hfails : (misgiven.run .default).2 =
      some (.invalid "METAROUTE_STACK_SIZE" "big" .notASize) := by
    decide +kernel
  have hsucceeds : (wellGiven.run (runAll .default [misgiven])).2 = none := by
    decide +kernel
  obtain ⟨hcontent, husable⟩ := (overlays_checked_not_undone .default).2.2 [misgiven]
  refine ⟨hfails, hsucceeds, husable wellGiven hsucceeds, ?_⟩
  rw [hcontent .bind]
  decide +kernel

/-- An overlay that fails is not undone: usable settings are left with a blank address. -/
theorem failed_overlay_leaves_blank_bind :
    ServiceSettings.default.IsUsable ∧
      misgiven.run .default = ({ ServiceSettings.default with bind := " " },
        some (.invalid "METAROUTE_STACK_SIZE" "big" .notASize)) ∧
      ¬(misgiven.run .default).1.IsUsable := by
  refine ⟨ServiceSettings.isValid_iff_isUsable.mp ServiceSettings.default_isValid, ?_, ?_⟩
  · decide +kernel
  · rw [← ServiceSettings.isValid_iff_isUsable, ServiceSettings.IsValid]
    decide +kernel

end SettingsCall
end TypedRoutes
