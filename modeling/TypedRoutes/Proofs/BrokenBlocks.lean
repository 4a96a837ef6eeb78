import TypedRoutes.Proofs.AttributeGrammar

/-!
# Attribute blocks that break off

Of a text that is refused the pairs are kept that were closed before the fault.  These are the pairs
of the longest start of the text that is a block.  That start need not be searched for while the
text is read: it is also found by cutting the text at the position of the refusal, and then back
from quote to quote until what is left is accepted.  More text behind never takes pairs away.
-/

namespace TypedRoutes

/-- The start of a text that has a number of bytes, if a character ends there. -/
def Text.takeBytes? : Nat → List Char → Option (List Char)
  | 0, _ => some []
  | _ + 1, [] => none
  | n + 1, c :: cs =>
    if c.utf8Size ≤ n + 1 then (takeBytes? (n + 1 - c.utf8Size) cs).map (c :: ·) else none

theorem Text.takeBytes?_append
    (start rest : List Char) : takeBytes? (byteCount start) (start ++ rest) = some start := by
  induction start with
  | nil => simp [byteCount, takeBytes?]
  | cons c start ih =>
      have hcount : byteCount (c :: start) = c.utf8Size + byteCount start := by
        rw [← List.singleton_append, byteCount_append]
        simp [byteCount]
      obtain ⟨n, hn⟩ := Nat.exists_eq_add_of_le' (Nat.succ_le_of_lt c.utf8Size_pos)
      have hn' : byteCount (c :: start) = (n + byteCount start) + 1 := by omega
      have hle : c.utf8Size ≤ (n + byteCount start) + 1 := by omega
      have hrest : (n + byteCount start) + 1 - c.utf8Size = byteCount start := by omega
      rw [hn', List.cons_append, takeBytes?, if_pos hle, hrest, ih]
      rfl

namespace Attributes

variable {place next : Place} {c : Char} {cs start rest : List Char} {pair : String × String}
  {pairs : List (String × String)} {fault : Fault}

/-! ## Cutting back to a quote -/

/-- Reads the starts of a text that end with a quote, the longest first, until one is accepted.  The
text is given in reverse. -/
def cutBack? : List Char → Option Attributes
  | [] => none
  | c :: before =>
    if c = '"' then
      match read (String.ofList (c :: before).reverse) with
      | .ok attributes => some attributes
      | .error _ => cutBack? before
    else
      cutBack? before

/-- Reads a text; if it is refused, what comes before the position of the refusal is cut back to a
quote where it is accepted, and to nothing if there is none. -/
def cutBack (input : String) : Attributes :=
  match read input with
  | .ok attributes => attributes
  | .error refusal =>
    (cutBack? ((Text.takeBytes? refusal.position input.toList).getD []).reverse).getD ⟨[]⟩

/-- The longest start of a text that is accepted, with what it is read as. -/
structure IsLongestAccepted (start cs : List Char) (attributes : Attributes) : Prop where
  startsText : start <+: cs
  accepted : read (String.ofList start) = .ok attributes
  longest : ∀ other otherAttributes, other <+: cs →
    read (String.ofList other) = .ok otherAttributes → other <+: start

/-! ## The pairs of a start -/

theorem read_eq_ok_iff
    {input : String} {attributes : Attributes} :
    read input = .ok attributes ↔ run .gap input.toList = (attributes.pairs, none) := by
  constructor
  · intro h
    cases hstopped : (run .gap input.toList).2 with
    | none =>
        have hrun : run .gap input.toList = ((run .gap input.toList).1, none) :=
          Prod.ext rfl hstopped
        obtain rfl := Except.ok.inj (h.symm.trans (read_of_run hrun))
        exact hrun
    | some stopped =>
        obtain ⟨fault, rest⟩ := stopped
        obtain ⟨start, hinput, -⟩ := exists_start_of_run hstopped
        rw [read_of_run_fault hinput hstopped] at h
        cases h
  · exact read_of_run

theorem run_fst_prefix
    (place : Place) (start rest : List Char) :
    (run place start).1 <+: (run place (start ++ rest)).1 := by
  induction start generalizing place with
  | nil => exact List.nil_prefix
  | cons c start ih =>
      rw [List.cons_append]
      cases hstep : step place c with
      | error fault => rw [run_of_fault hstep, run_of_fault hstep]
      | ok result =>
          rw [run_of_step hstep, run_of_step hstep]
          exact (List.prefix_append_right_inj _).mpr (ih result.1)

/-- What is not read after a fault holds no pairs. -/
theorem exists_unread_of_run
    (h : (run place cs).2 = some (fault, rest)) :
    ∃ start, cs = start ++ rest ∧ (run place start).1 = (run place cs).1 := by
  induction cs generalizing place with
  | nil =>
      rw [run_nil] at h
      obtain ⟨fault', -, hrest⟩ := Option.map_eq_some_iff.mp h
      obtain rfl : [] = rest := (Prod.mk.inj hrest).2
      exact ⟨[], rfl, rfl⟩
  | cons c cs ih =>
      cases hstep : step place c with
      | error fault' =>
          rw [run_of_fault hstep] at h ⊢
          obtain rfl : c :: cs = rest := (Prod.mk.inj (Option.some.inj h)).2
          exact ⟨[], rfl, rfl⟩
      | ok result =>
          obtain ⟨between, pair⟩ := result
          rw [run_of_step hstep] at h
          obtain ⟨start, rfl, hpairs⟩ := ih h
          exact ⟨c :: start, rfl, by rw [run_of_step hstep, run_of_step hstep, hpairs]⟩

/-- A pair is completed by a quote only. -/
theorem step_pair
    (h : step place c = .ok (next, some pair)) : c = '"' ∧ next = .closed := by
  cases place with
  | value k v =>
      by_cases hquote : c = '"'
      · subst hquote
        rw [step_value_quote] at h
        obtain ⟨rfl, -⟩ := Prod.mk.inj (Except.ok.inj h)
        exact ⟨rfl, rfl⟩
      · by_cases hslash : c = '\\' <;> simp [step, hquote, hslash] at h
  | escape k v => cases h
  | gap | key | colon | closed =>
      simp only [step] at h
      split_ifs at h <;> simp at h

/-- One more character adds no pairs, unless it is a quote with which the text is accepted. -/
theorem run_concat
    (place : Place) (cs : List Char) (c : Char) :
    (run place (cs ++ [c])).1 = (run place cs).1 ∨
      (c = '"' ∧ (run place (cs ++ [c])).2 = none) := by
  induction cs generalizing place with
  | nil =>
      cases hstep : step place c with
      | error fault =>
          left
          rw [List.nil_append, run_of_fault hstep]
          rfl
      | ok result =>
          obtain ⟨next, pair⟩ := result
          rw [List.nil_append, run_of_step hstep, run_nil]
          cases pair with
          | none => exact .inl rfl
          | some pair =>
              obtain ⟨rfl, rfl⟩ := step_pair hstep
              exact .inr ⟨rfl, rfl⟩
  | cons c' cs ih =>
      rw [List.cons_append]
      cases hstep : step place c' with
      | error fault =>
          left
          rw [run_of_fault hstep, run_of_fault hstep]
      | ok result =>
          rw [run_of_step hstep, run_of_step hstep]
          exact (ih result.1).imp_left fun h => by rw [h]

/-- The longest start that is accepted has all pairs.  The induction is on the last character: with
it the text is accepted, or it adds no pairs. -/
theorem exists_isLongestAccepted
    (cs : List Char) : ∃ start, IsLongestAccepted start cs ⟨(run .gap cs).1⟩ := by
  induction cs using List.reverseRecOn with
  | nil => exact ⟨[], List.prefix_rfl, rfl, fun _ _ h _ => h⟩
  | append_singleton cs c ih =>
      cases hstopped : (run .gap (cs ++ [c])).2 with
      | none =>
          refine ⟨cs ++ [c], List.prefix_rfl, ?_, fun _ _ h _ => h⟩
          rw [read_eq_ok_iff, String.toList_ofList]
          exact Prod.ext rfl hstopped
      | some stopped =>
          obtain ⟨start, hstart⟩ := ih
          have hpairs : (run .gap (cs ++ [c])).1 = (run .gap cs).1 := by
            refine (run_concat .gap cs c).resolve_right ?_
            rintro ⟨-, hnone⟩
            rw [hstopped] at hnone
            cases hnone
          rw [hpairs]
          refine ⟨start, hstart.startsText.trans (List.prefix_append _ _), hstart.accepted, ?_⟩
          intro other attributes hother hread
          rcases List.prefix_concat_iff.mp hother with rfl | hother
          · rw [read_eq_ok_iff, String.toList_ofList] at hread
            rw [hread] at hstopped
            cases hstopped
          · exact hstart.longest other attributes hother hread

/-- Cutting a text back to a quote keeps all pairs. -/
theorem cutBack?_reverse
    (cs : List Char) : (cutBack? cs.reverse).getD ⟨[]⟩ = ⟨(run .gap cs).1⟩ := by
  induction cs using List.reverseRecOn with
  | nil => rfl
  | append_singleton cs c ih =>
      have hskip : (run .gap (cs ++ [c])).1 = (run .gap cs).1 →
          (cutBack? cs.reverse).getD ⟨[]⟩ = ⟨(run .gap (cs ++ [c])).1⟩ := by
        intro hpairs
        rw [hpairs, ih]
      rw [List.reverse_concat, cutBack?, List.reverse_cons, List.reverse_reverse]
      split
      · cases hread : read (String.ofList (cs ++ [c])) with
        | ok attributes =>
            rw [read_eq_ok_iff, String.toList_ofList] at hread
            rw [hread]
            rfl
        | error refusal =>
            refine hskip ((run_concat .gap cs c).resolve_right ?_)
            rintro ⟨-, hnone⟩
            have hok : read (String.ofList (cs ++ [c])) = .ok ⟨(run .gap (cs ++ [c])).1⟩ := by
              rw [read_eq_ok_iff, String.toList_ofList]
              exact Prod.ext rfl hnone
            rw [hok] at hread
            cases hread
      · rename_i hquote
        exact hskip ((run_concat .gap cs c).resolve_right fun h => hquote h.1)

/-- A refused text up to the position of the refusal. -/
theorem exists_before_of_read
    {input : String} {refusal : Refusal} (h : read input = .error refusal) :
    ∃ before rest, input.toList = before ++ rest ∧
      (String.ofList before).utf8ByteSize = refusal.position ∧
      (run .gap before).1 = (run .gap input.toList).1 := by
  cases hstopped : (run .gap input.toList).2 with
  | none =>
      have hok : read input = .ok ⟨(run .gap input.toList).1⟩ :=
        read_of_run (Prod.ext rfl hstopped)
      rw [hok] at h
      cases h
  | some stopped =>
      obtain ⟨fault, rest⟩ := stopped
      obtain ⟨before, hinput, hpairs⟩ := exists_unread_of_run hstopped
      rw [read_of_run_fault hinput hstopped] at h
      obtain rfl := Except.error.inj h
      exact ⟨before, rest, hinput, rfl, hpairs⟩

theorem cutBack_eq_completed (input : String) : cutBack input = completed input := by
  rw [cutBack]
  cases hread : read input with
  | ok attributes => exact (completed_eq_of_read hread).symm
  | error refusal =>
      obtain ⟨before, rest, hinput, hposition, hpairs⟩ := exists_before_of_read hread
      have htaken : Text.takeBytes? refusal.position input.toList = some before := by
        rw [hinput, ← hposition, ← Text.byteCount_eq_utf8ByteSize, Text.takeBytes?_append]
      show (cutBack? ((Text.takeBytes? refusal.position input.toList).getD []).reverse).getD ⟨[]⟩ =
        completed input
      rw [htaken, Option.getD_some, cutBack?_reverse, hpairs]
      rfl

/-- The pairs that are kept of any text are those of the longest start of it that is accepted.  So
they are the pairs of the text if it is accepted.  If it is refused, they are the pairs of a block
before the position of the refusal, and every block there has an initial part of them; cutting the
text back from that position, quote by quote, keeps the same.  A longer text keeps these pairs
first. -/
theorem completed_keeps_longest_accepted (s : String) :
    (∃ start, IsLongestAccepted start s.toList (completed s)) ∧
    (∀ attributes, read s = .ok attributes → completed s = attributes) ∧
    (∀ refusal, read s = .error refusal →
      ∃ before rest, s.toList = before ++ rest ∧
        (String.ofList before).utf8ByteSize = refusal.position ∧
        (∃ block, block <+: before ∧ IsBlock block (completed s).pairs) ∧
        ∀ block pairs, block <+: before → IsBlock block pairs → pairs <+: (completed s).pairs) ∧
    cutBack s = completed s ∧
    ∀ t, (completed s).pairs <+: (completed (s ++ t)).pairs := by
  refine ⟨exists_isLongestAccepted s.toList, fun _ => completed_eq_of_read, ?_,
    cutBack_eq_completed s, ?_⟩
  · intro refusal hread
    obtain ⟨before, rest, hinput, hposition, hpairs⟩ := exists_before_of_read hread
    have hkept : (completed s).pairs = (run .gap before).1 := hpairs.symm
    refine ⟨before, rest, hinput, hposition, ?_, ?_⟩
    · obtain ⟨block, hblock⟩ := exists_isLongestAccepted before
      refine ⟨block, hblock.startsText, ?_⟩
      have haccepted := read_eq_ok_iff.mp hblock.accepted
      rw [String.toList_ofList] at haccepted
      rw [hkept]
      exact run_eq_iff.mp haccepted
    · rintro block pairs ⟨more, rfl⟩ hblock
      have hprefix := run_fst_prefix .gap block more
      rwa [run_of_isBlock hblock, ← hkept] at hprefix
  · intro t
    rw [completed, completed, String.toList_append]
    exact run_fst_prefix .gap s.toList t.toList

/-- The quote that opens the last value, and the escaped one in it, are cut away. -/
example : cutBack "p:\"é\" dc:\"a\\\" b" = ⟨[("p", "é")]⟩ := by rfl

end Attributes
end TypedRoutes
