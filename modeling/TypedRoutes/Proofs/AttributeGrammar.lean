import Mathlib.Data.List.Infix
import TypedRoutes.Attributes.Basic

/-!
# The grammar of attribute blocks

A block is a sequence of pairs with blanks between them, and possibly around them.  Reading accepts
exactly the blocks of the grammar, with the pairs that they are written for.  The machine that reads
a block fails as early as it can: what it has read at any time can be completed to a block, and the
position of a refusal ends the longest start of the input that can.
-/

namespace TypedRoutes
namespace Attributes

/-! ## Blocks -/

/-- A character that may stand in a key. -/
structure IsKeyChar (c : Char) : Prop where
  colon : c ≠ ':'
  quote : c ≠ '"'
  blank : Text.isAsciiBlank c = false

instance (c : Char) : Decidable (IsKeyChar c) :=
  decidable_of_iff (c ≠ ':' ∧ c ≠ '"' ∧ Text.isAsciiBlank c = false)
    ⟨fun ⟨hcolon, hquote, hblank⟩ => ⟨hcolon, hquote, hblank⟩,
      fun h => ⟨h.colon, h.quote, h.blank⟩⟩

/-- What stands between the quotes of a value, and the text that it is read as. -/
inductive Quoted : List Char → List Char → Prop
  | nil : Quoted [] []
  | plain {c : Char} {body value : List Char} (hquote : c ≠ '"') (hslash : c ≠ '\\')
      (h : Quoted body value) : Quoted (c :: body) (c :: value)
  | newline {body value : List Char} (h : Quoted body value) :
      Quoted ('\\' :: 'n' :: body) ('\n' :: value)
  | tab {body value : List Char} (h : Quoted body value) :
      Quoted ('\\' :: 't' :: body) ('\t' :: value)
  | itself {c : Char} {body value : List Char} (hn : c ≠ 'n') (ht : c ≠ 't')
      (h : Quoted body value) : Quoted ('\\' :: c :: body) (c :: value)

/-- A pair as it is written: the key, a colon and the value between quotes. -/
inductive WrittenPair : List Char → String × String → Prop
  | intro {key body value : List Char} (hkey : key ≠ []) (hchars : ∀ c ∈ key, IsKeyChar c)
      (hbody : Quoted body value) :
      WrittenPair (key ++ ':' :: '"' :: (body ++ ['"'])) (String.ofList key, String.ofList value)

/-- Nothing but blanks. -/
def IsGap (cs : List Char) : Prop :=
  ∀ c ∈ cs, Text.isAsciiBlank c = true

/-- Pairs as they are written, with at least one blank between each two. -/
inductive WrittenPairs : List Char → List (String × String) → Prop
  | nil : WrittenPairs [] []
  | single {cs : List Char} {p : String × String} (h : WrittenPair cs p) : WrittenPairs cs [p]
  | cons {cs gap rest : List Char} {p q : String × String} {pairs : List (String × String)}
      (h : WrittenPair cs p) (hgap : IsGap gap) (hne : gap ≠ [])
      (hrest : WrittenPairs rest (q :: pairs)) :
      WrittenPairs (cs ++ gap ++ rest) (p :: q :: pairs)

/-- A block: pairs as they are written, with blanks allowed at both ends. -/
def IsBlock (cs : List Char) (pairs : List (String × String)) : Prop :=
  ∃ before body after, IsGap before ∧ WrittenPairs body pairs ∧ IsGap after ∧
    cs = before ++ body ++ after

/-- Something follows the characters with which they are a block. -/
def StartsBlock (cs : List Char) : Prop :=
  ∃ rest pairs, IsBlock (cs ++ rest) pairs

/-- The longest start of a text that can be completed to a block. -/
structure IsLongestStart (start cs : List Char) : Prop where
  startsText : start <+: cs
  startsBlock : StartsBlock start
  longest : ∀ other, other <+: cs → StartsBlock other → other <+: start

variable {place next : Place} {c : Char} {cs start rest gap body value key k v : List Char}
  {p : String × String} {pairs others : List (String × String)} {fault : Fault}
  {pair : Option (String × String)}

theorem isGap_cons_iff : IsGap (c :: cs) ↔ Text.isAsciiBlank c = true ∧ IsGap cs :=
  List.forall_mem_cons

theorem IsGap.append (h : IsGap gap) (hcs : IsGap cs) : IsGap (gap ++ cs) :=
  List.forall_mem_append.mpr ⟨h, hcs⟩

theorem isBlock_of_writtenPairs (h : WrittenPairs cs pairs) : IsBlock cs pairs :=
  ⟨[], cs, [], nofun, h, nofun, by simp⟩

theorem isBlock_nil : IsBlock [] [] :=
  isBlock_of_writtenPairs .nil

theorem IsBlock.blank_cons
    (hc : Text.isAsciiBlank c = true) (h : IsBlock cs pairs) : IsBlock (c :: cs) pairs := by
  obtain ⟨before, body, after, hbefore, hbody, hafter, rfl⟩ := h
  exact ⟨c :: before, body, after, isGap_cons_iff.mpr ⟨hc, hbefore⟩, hbody, hafter, rfl⟩

/-- A pair goes in front of a block if a blank keeps them apart. -/
theorem IsBlock.pair_blank
    (hpair : WrittenPair cs p) (hc : Text.isAsciiBlank c = true) (h : IsBlock rest pairs) :
    IsBlock (cs ++ c :: rest) (p :: pairs) := by
  obtain ⟨before, body, after, hbefore, hbody, hafter, rfl⟩ := h
  have hgap : IsGap (c :: before) := isGap_cons_iff.mpr ⟨hc, hbefore⟩
  cases pairs with
  | nil =>
      cases hbody
      exact ⟨[], cs, c :: before ++ after, nofun, .single hpair, hgap.append hafter, by simp⟩
  | cons q pairs =>
      exact ⟨[], cs ++ (c :: before) ++ body, after, nofun, .cons hpair hgap (by simp) hbody,
        hafter, by simp⟩

/-! ## Runs of the machine -/

theorem run_nil (place : Place) : run place [] = ([], place.fault?.map fun fault => (fault, [])) :=
  rfl

theorem run_of_step
    (h : step place c = .ok (next, pair)) (cs : List Char) :
    run place (c :: cs) = (pair.toList ++ (run next cs).1, (run next cs).2) := by
  rw [run, h]

theorem run_of_fault
    (h : step place c = .error fault) (cs : List Char) :
    run place (c :: cs) = ([], some (fault, c :: cs)) := by
  rw [run, h]

theorem exists_run_of_step
    (hstep : step place c = .ok (next, pair)) (h : run place (c :: cs) = (pairs, none)) :
    ∃ others, run next cs = (others, none) ∧ pairs = pair.toList ++ others := by
  rw [run_of_step hstep] at h
  obtain ⟨hpairs, hnone⟩ := Prod.mk.inj h
  exact ⟨(run next cs).1, Prod.ext rfl hnone, hpairs.symm⟩

theorem run_ne_of_fault
    (hstep : step place c = .error fault) : run place (c :: cs) ≠ (pairs, none) := by
  rw [run_of_fault hstep]
  exact nofun

/-- Where the machine stands after some characters, unless a step fails. -/
def reach? : Place → List Char → Option Place
  | place, [] => some place
  | place, c :: cs =>
    match step place c with
    | .ok (next, _) => reach? next cs
    | .error _ => none

theorem reach?_append (place : Place) (start rest : List Char) :
    reach? place (start ++ rest) = (reach? place start).bind fun next => reach? next rest := by
  induction start generalizing place with
  | nil => rfl
  | cons c start ih =>
      simp only [List.cons_append, reach?]
      cases step place c with
      | error fault => rfl
      | ok result => exact ih result.1

theorem run_append
    (h : reach? place start = some next) (rest : List Char) :
    run place (start ++ rest) = ((run place start).1 ++ (run next rest).1, (run next rest).2) := by
  induction start generalizing place with
  | nil =>
      obtain rfl := Option.some.inj h
      simp [run_nil]
  | cons c start ih =>
      cases hstep : step place c with
      | error fault => simp [reach?, hstep] at h
      | ok result =>
          obtain ⟨between, pair⟩ := result
          have hbetween : reach? between start = some next := by simpa [reach?, hstep] using h
          rw [List.cons_append, run_of_step hstep, run_of_step hstep, ih hbetween]
          simp

/-- A run does not succeed where a step fails. -/
theorem run_ne_none_of_reach?_eq_none
    (h : reach? place cs = none) : (run place cs).2 ≠ none := by
  induction cs generalizing place with
  | nil => cases h
  | cons c cs ih =>
      cases hstep : step place c with
      | error fault => simp [run_of_fault hstep]
      | ok result =>
          obtain ⟨between, pair⟩ := result
          rw [run_of_step hstep]
          exact ih (by simpa [reach?, hstep] using h)

/-- What is left after a failure begins with the character that the machine does not take. -/
theorem exists_start_of_run
    (h : (run place cs).2 = some (fault, rest)) :
    ∃ start, cs = start ++ rest ∧ (reach? place start).isSome = true ∧
      ∀ c tail, rest = c :: tail → reach? place (start ++ [c]) = none := by
  induction cs generalizing place with
  | nil =>
      rw [run_nil] at h
      obtain ⟨fault', -, hrest⟩ := Option.map_eq_some_iff.mp h
      obtain rfl : [] = rest := (Prod.mk.inj hrest).2
      exact ⟨[], rfl, rfl, nofun⟩
  | cons c cs ih =>
      cases hstep : step place c with
      | error fault' =>
          rw [run_of_fault hstep] at h
          obtain rfl : c :: cs = rest := (Prod.mk.inj (Option.some.inj h)).2
          refine ⟨[], rfl, rfl, ?_⟩
          intro c' tail heq
          obtain ⟨rfl, -⟩ := List.cons.inj heq
          simp [reach?, hstep]
      | ok result =>
          obtain ⟨between, pair⟩ := result
          rw [run_of_step hstep] at h
          obtain ⟨start, rfl, hsome, hstop⟩ := ih h
          refine ⟨c :: start, rfl, by simpa [reach?, hstep] using hsome, ?_⟩
          intro c' tail heq
          simpa [reach?, hstep] using hstop c' tail heq

/-- From every place the input can go on so that the machine succeeds. -/
theorem exists_completion (place : Place) : ∃ cs, (run place cs).2 = none := by
  cases place with
  | gap => exact ⟨[], rfl⟩
  | key k => exact ⟨[':', '"', '"'], rfl⟩
  | colon k => exact ⟨['"', '"'], rfl⟩
  | value k v => exact ⟨['"'], rfl⟩
  | escape k v => exact ⟨['n', '"'], rfl⟩
  | closed => exact ⟨[], rfl⟩

/-! ## Blocks are accepted -/

theorem step_key (h : IsKeyChar c) (k : List Char) :
    step (.key k) c = .ok (.key (c :: k), none) := by
  simp [step, h.colon, h.quote, h.blank]

theorem step_gap (h : IsKeyChar c) : step .gap c = .ok (.key [c], none) := by
  simp [step, h.colon, h.quote, h.blank]

theorem step_gap_blank (h : Text.isAsciiBlank c = true) : step .gap c = .ok (.gap, none) := by
  simp [step, h]

theorem step_closed_blank (h : Text.isAsciiBlank c = true) :
    step .closed c = .ok (.gap, none) := by
  simp [step, h]

theorem step_value (hquote : c ≠ '"') (hslash : c ≠ '\\') (k v : List Char) :
    step (.value k v) c = .ok (.value k (c :: v), none) := by
  simp [step, hquote, hslash]

theorem step_value_quote (k v : List Char) :
    step (.value k v) '"' =
      .ok (.closed, some (String.ofList k.reverse, String.ofList v.reverse)) :=
  rfl

theorem step_value_slash (k v : List Char) :
    step (.value k v) '\\' = .ok (.escape k v, none) :=
  rfl

theorem run_gap (h : IsGap gap) (cs : List Char) : run .gap (gap ++ cs) = run .gap cs := by
  induction gap with
  | nil => rfl
  | cons c gap ih =>
      obtain ⟨hc, hgap⟩ := isGap_cons_iff.mp h
      rw [List.cons_append, run_of_step (step_gap_blank hc), ih hgap]
      rfl

theorem run_key (h : ∀ c ∈ key, IsKeyChar c) (k cs : List Char) :
    run (.key k) (key ++ cs) = run (.key (key.reverse ++ k)) cs := by
  induction key generalizing k with
  | nil => rfl
  | cons c key ih =>
      obtain ⟨hc, hkey⟩ := List.forall_mem_cons.mp h
      rw [List.cons_append, run_of_step (step_key hc k), ih hkey]
      simp

theorem run_quoted (h : Quoted body value) (k v cs : List Char) :
    run (.value k v) (body ++ cs) = run (.value k (value.reverse ++ v)) cs := by
  induction h generalizing v with
  | nil => rfl
  | plain hquote hslash _ ih =>
      rw [List.cons_append, run_of_step (step_value hquote hslash k v), ih]
      simp
  | newline _ ih =>
      rw [List.cons_append, List.cons_append, run_of_step rfl, run_of_step rfl, ih]
      simp [unescape]
  | tab _ ih =>
      rw [List.cons_append, List.cons_append, run_of_step rfl, run_of_step rfl, ih]
      simp [unescape]
  | itself hn ht _ ih =>
      rw [List.cons_append, List.cons_append, run_of_step rfl, run_of_step rfl, ih]
      simp [unescape, hn, ht]

/-- The machine takes a pair as it is written. -/
theorem run_pair (h : WrittenPair cs p) (rest : List Char) :
    run .gap (cs ++ rest) = (p :: (run .closed rest).1, (run .closed rest).2) := by
  cases h with
  | @intro key body value hkey hchars hbody =>
      obtain ⟨c, key, rfl⟩ := List.exists_cons_of_ne_nil hkey
      obtain ⟨hc, hchars⟩ := List.forall_mem_cons.mp hchars
      have hopen : ∀ k, step (.key k) ':' = .ok (.colon k, none) := fun k => rfl
      have hvalue : ∀ k, step (.colon k) '"' = .ok (.value k [], none) := fun k => rfl
      simp only [List.cons_append, List.append_assoc, List.nil_append]
      rw [run_of_step (step_gap hc), run_key hchars, run_of_step (hopen _), run_of_step (hvalue _),
        run_quoted hbody, run_of_step (step_value_quote _ _)]
      simp

theorem run_closed_gap (h : IsGap gap) : run .closed gap = ([], none) := by
  cases gap with
  | nil => rfl
  | cons c gap =>
      obtain ⟨hc, hgap⟩ := isGap_cons_iff.mp h
      have hrest := run_gap hgap []
      rw [List.append_nil] at hrest
      rw [run_of_step (step_closed_blank hc), hrest]
      rfl

theorem run_closed_of_gap (h : IsGap gap) (hne : gap ≠ []) (cs : List Char) :
    run .closed (gap ++ cs) = run .gap cs := by
  cases gap with
  | nil => exact absurd rfl hne
  | cons c gap =>
      obtain ⟨hc, hgap⟩ := isGap_cons_iff.mp h
      rw [List.cons_append, run_of_step (step_closed_blank hc), run_gap hgap]
      rfl

theorem run_pairs (h : WrittenPairs cs pairs) (hgap : IsGap gap) :
    run .gap (cs ++ gap) = (pairs, none) := by
  induction h with
  | nil =>
      have hrun := run_gap hgap []
      rwa [List.append_nil] at hrun
  | single h => rw [run_pair h, run_closed_gap hgap]
  | @cons cs between rest p q pairs h hbetween hne _ ih =>
      rw [List.append_assoc, List.append_assoc, run_pair h, run_closed_of_gap hbetween hne, ih]

theorem run_of_isBlock (h : IsBlock cs pairs) : run .gap cs = (pairs, none) := by
  obtain ⟨before, body, after, hbefore, hbody, hafter, rfl⟩ := h
  rw [List.append_assoc, run_gap hbefore, run_pairs hbody hafter]

/-! ## What is accepted is a block -/

theorem exists_key_of_run (h : run (.key k) cs = (pairs, none)) :
    ∃ key rest, cs = key ++ ':' :: rest ∧ (∀ c ∈ key, IsKeyChar c) ∧
      run (.colon (key.reverse ++ k)) rest = (pairs, none) := by
  induction cs generalizing k with
  | nil => cases h
  | cons c cs ih =>
      by_cases hcolon : c = ':'
      · subst hcolon
        obtain ⟨others, hrun, rfl⟩ := exists_run_of_step rfl h
        exact ⟨[], cs, rfl, nofun, hrun⟩
      · cases hblank : Text.isAsciiBlank c with
        | true =>
            have hstep : step (.key k) c = .error .missingColon := by simp [step, hcolon, hblank]
            exact absurd h (run_ne_of_fault hstep)
        | false =>
            by_cases hquote : c = '"'
            · subst hquote
              exact absurd h (run_ne_of_fault rfl)
            · have hc : IsKeyChar c := ⟨hcolon, hquote, hblank⟩
              obtain ⟨others, hrun, rfl⟩ := exists_run_of_step (step_key hc k) h
              obtain ⟨key, rest, rfl, hkey, hrest⟩ := ih hrun
              refine ⟨c :: key, rest, rfl, List.forall_mem_cons.mpr ⟨hc, hkey⟩, ?_⟩
              simpa using hrest

theorem quoted_escaped (h : Quoted body value) (c : Char) :
    Quoted ('\\' :: c :: body) (unescape c :: value) := by
  by_cases hn : c = 'n'
  · subst hn
    exact .newline h
  · by_cases ht : c = 't'
    · subst ht
      exact .tab h
    · simpa [unescape, hn, ht] using Quoted.itself hn ht h

/-- A value that is read whole ends with a quote.  The induction takes an escape with the character
after it in one step. -/
theorem exists_quoted_of_run (h : run (.value k v) cs = (pairs, none)) :
    ∃ body value rest others, cs = body ++ '"' :: rest ∧ Quoted body value ∧
      run .closed rest = (others, none) ∧
      pairs = (String.ofList k.reverse, String.ofList (v.reverse ++ value)) :: others := by
  induction hlength : cs.length using Nat.strong_induction_on generalizing cs v pairs with
  | _ n ih =>
      subst hlength
      cases cs with
      | nil => cases h
      | cons c cs =>
          by_cases hquote : c = '"'
          · subst hquote
            obtain ⟨others, hrun, rfl⟩ := exists_run_of_step (step_value_quote k v) h
            exact ⟨[], [], cs, others, rfl, .nil, hrun, by simp⟩
          · by_cases hslash : c = '\\'
            · subst hslash
              obtain ⟨_, hescape, rfl⟩ := exists_run_of_step (step_value_slash k v) h
              cases cs with
              | nil => cases hescape
              | cons c' cs =>
                  obtain ⟨_, hrun, rfl⟩ := exists_run_of_step rfl hescape
                  obtain ⟨body, value, rest, others, rfl, hbody, hrest, rfl⟩ :=
                    ih cs.length (by simp only [List.length_cons]; omega) hrun rfl
                  exact ⟨'\\' :: c' :: body, unescape c' :: value, rest, others, rfl,
                    quoted_escaped hbody c', hrest, by simp⟩
            · obtain ⟨_, hrun, rfl⟩ := exists_run_of_step (step_value hquote hslash k v) h
              obtain ⟨body, value, rest, others, rfl, hbody, hrest, rfl⟩ :=
                ih cs.length (by simp) hrun rfl
              exact ⟨c :: body, c :: value, rest, others, rfl, .plain hquote hslash hbody, hrest,
                by simp⟩

/-- A key that is read whole is followed by a value, and the two are a pair. -/
theorem exists_pair_of_run (hc : IsKeyChar c) (h : run (.key [c]) cs = (pairs, none)) :
    ∃ written p rest others, c :: cs = written ++ rest ∧ WrittenPair written p ∧
      run .closed rest = (others, none) ∧ pairs = p :: others := by
  obtain ⟨key, rest, rfl, hkey, hrest⟩ := exists_key_of_run h
  cases rest with
  | nil => cases hrest
  | cons c' rest =>
      by_cases hquote : c' = '"'
      · subst hquote
        obtain ⟨_, hrun, rfl⟩ := exists_run_of_step rfl hrest
        obtain ⟨body, value, rest, others, rfl, hbody, hclosed, rfl⟩ := exists_quoted_of_run hrun
        have hpair : WrittenPair (c :: key ++ ':' :: '"' :: (body ++ ['"']))
            (String.ofList (c :: key), String.ofList value) :=
          .intro (by simp) (List.forall_mem_cons.mpr ⟨hc, hkey⟩) hbody
        exact ⟨_, _, rest, others, by simp, hpair, hclosed, by simp⟩
      · have hstep : step (.colon (key.reverse ++ [c])) c' = .error .missingQuote := by
          simp [step, hquote]
        exact absurd hrest (run_ne_of_fault hstep)

/-- After a value the input ends, or it goes on with a blank. -/
theorem run_closed_cases (h : run .closed cs = (pairs, none)) :
    (cs = [] ∧ pairs = []) ∨
      ∃ c rest, cs = c :: rest ∧ Text.isAsciiBlank c = true ∧ run .gap rest = (pairs, none) := by
  cases cs with
  | nil => exact .inl ⟨rfl, (Prod.mk.inj h).1.symm⟩
  | cons c rest =>
      cases hblank : Text.isAsciiBlank c with
      | true =>
          obtain ⟨_, hrun, rfl⟩ := exists_run_of_step (step_closed_blank hblank) h
          exact .inr ⟨c, rest, rfl, hblank, hrun⟩
      | false =>
          have hstep : step .closed c = .error .missingBlank := by simp [step, hblank]
          exact absurd h (run_ne_of_fault hstep)

theorem isBlock_of_run (h : run .gap cs = (pairs, none)) : IsBlock cs pairs := by
  induction hlength : cs.length using Nat.strong_induction_on generalizing cs pairs with
  | _ n ih =>
      subst hlength
      cases cs with
      | nil =>
          obtain rfl : [] = pairs := (Prod.mk.inj h).1
          exact isBlock_nil
      | cons c cs =>
          cases hblank : Text.isAsciiBlank c with
          | true =>
              obtain ⟨_, hrun, rfl⟩ := exists_run_of_step (step_gap_blank hblank) h
              exact (ih cs.length (by simp) hrun rfl).blank_cons hblank
          | false =>
              have hc : IsKeyChar c := by
                refine ⟨?_, ?_, hblank⟩
                · rintro rfl
                  exact run_ne_of_fault rfl h
                · rintro rfl
                  exact run_ne_of_fault rfl h
              obtain ⟨_, hrun, rfl⟩ := exists_run_of_step (step_gap hc) h
              obtain ⟨written, p, rest, others, heq, hpair, hclosed, rfl⟩ :=
                exists_pair_of_run hc hrun
              rw [heq]
              rcases run_closed_cases hclosed with ⟨rfl, rfl⟩ | ⟨c', rest, rfl, hblank', hrest⟩
              · rw [List.append_nil]
                exact isBlock_of_writtenPairs (.single hpair)
              · refine IsBlock.pair_blank hpair hblank' (ih rest.length ?_ hrest rfl)
                rw [heq]
                simp only [List.length_append, List.length_cons]
                omega

/-- The machine accepts a text exactly if it is a block, with the pairs of the block. -/
theorem run_eq_iff : run .gap cs = (pairs, none) ↔ IsBlock cs pairs :=
  ⟨isBlock_of_run, run_of_isBlock⟩

/-! ## Starts of blocks -/

theorem startsBlock_iff : StartsBlock cs ↔ (reach? .gap cs).isSome = true := by
  constructor
  · rintro ⟨rest, pairs, hblock⟩
    cases hreach : reach? .gap cs with
    | some next => rfl
    | none =>
        have hstop : reach? .gap (cs ++ rest) = none := by rw [reach?_append, hreach]; rfl
        have hrun := run_ne_none_of_reach?_eq_none hstop
        rw [run_of_isBlock hblock] at hrun
        exact absurd rfl hrun
  · intro h
    obtain ⟨next, hnext⟩ := Option.isSome_iff_exists.mp h
    obtain ⟨rest, hrest⟩ := exists_completion next
    refine ⟨rest, (run .gap (cs ++ rest)).1, isBlock_of_run (Prod.ext rfl ?_)⟩
    rw [run_append hnext, hrest]

/-- Where the machine fails, the longest start of a block ends. -/
theorem exists_isLongestStart_of_run
    (h : (run .gap cs).2 = some (fault, rest)) : ∃ start, cs = start ++ rest ∧
      IsLongestStart start cs := by
  obtain ⟨start, rfl, hsome, hstop⟩ := exists_start_of_run h
  refine ⟨start, rfl, List.prefix_append _ _, startsBlock_iff.mpr hsome, ?_⟩
  intro other hother hstarts
  rcases List.prefix_or_prefix_of_prefix hother (List.prefix_append start rest) with hle | hlong
  · exact hle
  · obtain ⟨more, rfl⟩ := hlong
    cases more with
    | nil => simp
    | cons c more =>
        obtain ⟨tail, rfl⟩ : ∃ tail, rest = c :: tail := by
          rw [List.prefix_append_right_inj] at hother
          obtain ⟨end', rfl⟩ := hother
          exact ⟨more ++ end', rfl⟩
        have hnone : reach? .gap (start ++ c :: more) = none := by
          rw [← List.singleton_append, ← List.append_assoc, reach?_append, hstop c tail rfl]
          rfl
        rw [startsBlock_iff, hnone] at hstarts
        cases hstarts

end Attributes

/-! ## Byte positions -/

theorem Text.byteCount_append (xs ys : List Char) :
    byteCount (xs ++ ys) = byteCount xs + byteCount ys := by
  have hstart : ∀ n, ys.foldl (fun n c => n + c.utf8Size) n = n + byteCount ys := by
    induction ys with
    | nil => exact fun n => rfl
    | cons c ys ih =>
        intro n
        simp only [byteCount, List.foldl_cons] at ih ⊢
        rw [ih, ih (0 + c.utf8Size)]
        omega
  rw [byteCount, List.foldl_append, hstart]
  rfl

theorem Text.byteCount_eq_utf8ByteSize (cs : List Char) :
    byteCount cs = (String.ofList cs).utf8ByteSize := by
  induction cs with
  | nil => rfl
  | cons c cs ih =>
      rw [← List.singleton_append, byteCount_append, String.ofList_append,
        String.utf8ByteSize_append, ih]
      congr 1
      simp [byteCount]

namespace Attributes

theorem read_of_run
    {input : String} {pairs : List (String × String)} (h : run .gap input.toList = (pairs, none)) :
    read input = .ok ⟨pairs⟩ := by
  simp [read, h]

theorem read_of_run_fault
    {input : String} {start rest : List Char} {fault : Fault}
    (hinput : input.toList = start ++ rest)
    (h : (run .gap input.toList).2 = some (fault, rest)) :
    read input = .error ⟨input, (String.ofList start).utf8ByteSize, fault⟩ := by
  have hposition : Text.byteCount input.toList - Text.byteCount rest =
      (String.ofList start).utf8ByteSize := by
    rw [hinput, Text.byteCount_append, Text.byteCount_eq_utf8ByteSize start]
    omega
  rw [← hposition]
  generalize hrun : run .gap input.toList = result at h
  obtain ⟨pairs, stopped⟩ := result
  obtain rfl : stopped = some (fault, rest) := h
  simp [read, hrun]

/-- Reading succeeds exactly on the blocks of the grammar, with the pairs that they are written for.
A text that is no block is refused, at the byte position where the longest start of it that can be
completed to a block ends. -/
theorem read_decides_blocks (input : String) :
    (∀ attributes, read input = .ok attributes ↔ IsBlock input.toList attributes.pairs) ∧
    ((∃ attributes, read input = .ok attributes) ∨
      ∃ start fault, IsLongestStart start input.toList ∧
        read input = .error ⟨input, (String.ofList start).utf8ByteSize, fault⟩) := by
  cases hstopped : (run .gap input.toList).2 with
  | none =>
      have hrun : run .gap input.toList = ((run .gap input.toList).1, none) :=
        Prod.ext rfl hstopped
      have hread := read_of_run hrun
      refine ⟨?_, .inl ⟨_, hread⟩⟩
      intro attributes
      rw [← run_eq_iff, hrun, hread]
      constructor
      · intro h
        obtain rfl := Except.ok.inj h
        rfl
      · intro h
        rw [(Prod.mk.inj h).1]
  | some stopped =>
      obtain ⟨fault, rest⟩ := stopped
      obtain ⟨start, hinput, hlongest⟩ := exists_isLongestStart_of_run hstopped
      have hread := read_of_run_fault hinput hstopped
      refine ⟨?_, .inr ⟨start, fault, hlongest, hread⟩⟩
      intro attributes
      rw [← run_eq_iff, hread]
      constructor
      · intro h
        cases h
      · intro h
        rw [h] at hstopped
        cases hstopped

/-- A position counts bytes, and a value needs a blank after it. -/
example : read "dc:\"é\"p" = .error ⟨"dc:\"é\"p", 7, .missingBlank⟩ := by rfl

end Attributes
end TypedRoutes
