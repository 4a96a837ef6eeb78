import Mathlib.Data.List.Perm.Subperm
import TypedRoutes.Proofs.Interleaving
import TypedRoutes.Proofs.Words

/-!
# What tracing and metrics count

The tracing middleware keeps the numbers of the calls between its two hooks, and the metrics
middleware counts calls at both of its own.  Whatever order calls take their steps in, and whatever
identifiers they carry, both agree with how far the calls have come.

Numbers and counts are 64-bit words.  A count is right up to a multiple of `2 ^ 64`.  Of more calls
than that some have one number, and the tracing middleware may take them for one call; it never
keeps more calls than there are, and none once all have finished.
-/

namespace TypedRoutes

/-! ## Counting codes -/

namespace Metrics

/-- The counters are those of some calls begun, and of some answered with codes. -/
structure Tallies (m : Metrics) (begun : Nat) (codes : List Int) : Prop where
  requests : m.requests = .ofNat begun
  codeCount : ∀ code, m.codeCount code = .ofNat (codes.count code)
  failures : m.failures = .ofNat (codes.countP (· ≠ ErrorCode.ok.code))

variable {m : Metrics} {begun : Nat} {codes : List Int}

theorem lookup_bump (code other : Int) (byCode : List (Int × UInt64)) :
    ((bump code byCode).lookup other).getD 0 =
      (byCode.lookup other).getD 0 + if other = code then 1 else 0 := by
  induction byCode with
  | nil =>
      by_cases hother : other = code
      · simp [bump, hother]
      · simp [bump, hother, List.lookup_cons, beq_eq_false_iff_ne.mpr hother]
  | cons entry rest ih =>
      obtain ⟨c, n⟩ := entry
      rw [bump]
      by_cases hc : c = code
      · subst hc
        by_cases hother : other = c
        · simp [hother]
        · simp [hother, List.lookup_cons, beq_eq_false_iff_ne.mpr hother]
      · rw [if_neg hc]
        by_cases hother : other = c
        · subst hother
          simp [hc]
        · simpa [List.lookup_cons, beq_eq_false_iff_ne.mpr hother] using ih

/-- The sum of the counts for other codes than that of a success. -/
def failuresIn : List (Int × UInt64) → UInt64
  | [] => 0
  | (code, count) :: rest => (if code ≠ ErrorCode.ok.code then count else 0) + failuresIn rest

theorem failures_eq_failuresIn (m : Metrics) : m.failures = failuresIn m.byCode := by
  have hfold : ∀ (byCode : List (Int × UInt64)) (n : UInt64),
      byCode.foldl
          (fun n entry => if entry.1 ≠ ErrorCode.ok.code then n + entry.2 else n) n =
        n + failuresIn byCode := by
    intro byCode
    induction byCode with
    | nil => simp [failuresIn]
    | cons entry rest ih =>
        intro n
        rw [List.foldl_cons, ih, failuresIn, ← UInt64.add_assoc]
        congr 1
        by_cases hcode : entry.1 ≠ ErrorCode.ok.code
        · simp [hcode]
        · simp [hcode]
  exact (hfold m.byCode 0).trans (UInt64.zero_add _)

theorem failuresIn_bump (code : Int) (byCode : List (Int × UInt64)) :
    failuresIn (bump code byCode) =
      failuresIn byCode + if code ≠ ErrorCode.ok.code then 1 else 0 := by
  induction byCode with
  | nil => simp [bump, failuresIn]
  | cons entry rest ih =>
      obtain ⟨c, n⟩ := entry
      rw [bump]
      split
      · rename_i hc
        subst hc
        simp only [failuresIn]
        split
        · rw [UInt64.add_assoc, UInt64.add_comm 1, ← UInt64.add_assoc]
        · simp
      · rw [failuresIn, ih, failuresIn, UInt64.add_assoc]

namespace Tallies

theorem of_empty : Metrics.empty.Tallies 0 [] :=
  ⟨rfl, fun _ => rfl, rfl⟩

theorem of_begin (h : m.Tallies begun codes) : m.begin.Tallies (begun + 1) codes :=
  ⟨by rw [begin, h.requests, UInt64.ofNat_add, UInt64.ofNat_one], h.codeCount, h.failures⟩

/-- An answer is counted once, under its own code. -/
theorem of_finish (h : m.Tallies begun codes) (response : Response) :
    (m.finish response).Tallies begun (response.code?.toList ++ codes) := by
  cases hcode : response.code? with
  | none => simpa [finish, hcode] using h
  | some code =>
      simp only [finish, hcode, Option.toList_some, List.singleton_append]
      refine ⟨h.requests, fun other => ?_, ?_⟩
      · have hcount := h.codeCount other
        rw [Metrics.codeCount] at hcount
        rw [Metrics.codeCount, lookup_bump, hcount, List.count_cons, UInt64.ofNat_add]
        by_cases hother : other = code
        · simp [hother]
        · simp [hother, Ne.symm hother]
      · have hfailures := h.failures
        rw [failures_eq_failuresIn] at hfailures
        rw [failures_eq_failuresIn, failuresIn_bump, hfailures, List.countP_cons, UInt64.ofNat_add]
        by_cases hok : code = ErrorCode.ok.code
        · simp [hok]
        · simp [hok]

theorem perm (h : m.Tallies begun codes) {others : List Int} (hperm : codes.Perm others) :
    m.Tallies begun others :=
  ⟨h.requests, fun code => (h.codeCount code).trans (congrArg _ (hperm.count_eq code)),
    h.failures.trans (congrArg _ (hperm.countP_eq _))⟩

/-- Successes and failures make up all the answers with a code. -/
theorem successes_add_failures (h : m.Tallies begun codes) :
    m.codeCount ErrorCode.ok.code + m.failures = .ofNat codes.length := by
  rw [h.codeCount, h.failures, ← UInt64.ofNat_add, List.count, List.length_eq_countP_add_countP
    (fun code => code == ErrorCode.ok.code)]
  simp

end Tallies
end Metrics

/-! ## How far a call has come -/

namespace Progress

/-- The number of a call, once it has one. -/
def seq? : Progress → Option UInt64
  | .waiting => none
  | .entering context _ _ | .leaving context _ _ => some context.seq

/-- Whether the middleware at a position has seen the call. -/
def entered (k : Nat) : Progress → Bool
  | .waiting => false
  | .entering _ passed _ => decide (k < passed)
  | .leaving _ _ _ => true

/-- The answer to the call as the middleware at a position has seen it. -/
def seenBy? (k : Nat) : Progress → Option Response
  | .leaving _ _ seen => seen[k]?
  | _ => none

/-- Whether the middleware at a position has seen the answer. -/
def left (k : Nat) (progress : Progress) : Bool :=
  (progress.seenBy? k).isSome

/-- Whether all of so many middlewares have seen the answer. -/
def finished (n : Nat) : Progress → Bool
  | .leaving _ _ seen => decide (n ≤ seen.length)
  | _ => false

/-- The number of a call that is between the two hooks of the middleware at a position. -/
def between? (k : Nat) (progress : Progress) : Option UInt64 :=
  if progress.entered k && !progress.left k then progress.seq? else none

theorem left_of_finished
    {n k : Nat} (hk : k < n) {progress : Progress} (h : progress.finished n = true) :
    progress.left k = true := by
  cases progress with
  | waiting => cases h
  | entering => cases h
  | leaving context answer seen =>
      have hlength : n ≤ seen.length := of_decide_eq_true h
      simpa [left, seenBy?] using Nat.lt_of_lt_of_le hk hlength

theorem between?_congr
    {k : Nat} {progress progress' : Progress} (hentered : progress'.entered k = progress.entered k)
    (hseen : progress'.seenBy? k = progress.seenBy? k) (hseq : progress'.seq? = progress.seq?) :
    progress'.between? k = progress.between? k := by
  rw [between?, between?, left, left, hentered, hseen, hseq]

theorem between?_of_not_entered
    {k : Nat} {progress : Progress} (h : progress.entered k = false) :
    progress.between? k = none := by
  simp [between?, h]

theorem between?_of_seen
    {k : Nat} {progress : Progress} {answer : Response}
    (h : progress.seenBy? k = some answer) : progress.between? k = none := by
  simp [between?, left, h]

theorem between?_of_entered
    {k : Nat} {seq : UInt64} {progress : Progress} (hentered : progress.entered k = true)
    (hseen : progress.seenBy? k = none) (hseq : progress.seq? = some seq) :
    progress.between? k = some seq := by
  simp [between?, left, hentered, hseen, hseq]

/-- A call between two hooks has a number. -/
theorem isSome_between? (k : Nat) (progress : Progress) :
    (progress.between? k).isSome = (progress.entered k && !progress.left k) := by
  rw [between?]
  split
  · rename_i h
    rw [h]
    cases progress with
    | waiting => cases h
    | entering => rfl
    | leaving => rfl
  · rename_i h
    simpa using h

end Progress

namespace Dispatcher

variable {σ : Type} {d : Dispatcher σ} {t : Traffic σ} {request : Call}

/-- What a step of a call is to the middleware at a position: it sees the call, or the answer, or
neither. -/
inductive Passing (k : Nat) (s s' : DispatchState σ) (progress progress' : Progress) : Prop
  | aside (hmiddleware : s'.middlewares[k]? = s.middlewares[k]?)
      (hentered : progress'.entered k = progress.entered k)
      (hseen : progress'.seenBy? k = progress.seenBy? k)
      (hbetween : progress'.between? k = progress.between? k)
  | enters {m : Middleware} {context : CallContext} (hm : s.middlewares[k]? = some m)
      (hm' : s'.middlewares[k]? = some (m.before context).1)
      (hentered : progress.entered k = false) (hentered' : progress'.entered k = true)
      (hseen : progress.seenBy? k = none) (hseen' : progress'.seenBy? k = none)
      (hseq : progress.seq? = some context.seq) (hseq' : progress'.seq? = some context.seq)
  | leaves {m : Middleware} {context : CallContext} {answer : Response}
      (hm : s.middlewares[k]? = some m)
      (hm' : s'.middlewares[k]? = some (m.after context answer).1)
      (hentered : progress.entered k = true) (hentered' : progress'.entered k = true)
      (hseen : progress.seenBy? k = none) (hseen' : progress'.seenBy? k = some answer)
      (hseq : progress.seq? = some context.seq) (hseq' : progress'.seq? = some context.seq)

theorem passing_of_advance
    {k : Nat} {s : DispatchState σ} (hk : k < s.middlewares.length) (request : Call)
    (progress : Progress) :
    Passing k s (d.advance request s progress).2 progress (d.advance request s progress).1 := by
  cases progress with
  | waiting => exact .aside rfl rfl rfl rfl
  | entering context passed early =>
      cases hm : s.middlewares[passed]? with
      | none =>
          have hpassed : k < passed := by
            have := List.getElem?_eq_none_iff.mp hm
            omega
          simp only [advance, hm]
          have hentered : (Progress.entering context passed early).entered k = true :=
            decide_eq_true hpassed
          exact .aside rfl hentered.symm rfl (Progress.between?_congr hentered.symm rfl rfl)
      | some m =>
          obtain ⟨hpassed, -⟩ := List.getElem?_eq_some_iff.mp hm
          simp only [advance, hm]
          by_cases hposition : passed = k
          · subst hposition
            exact .enters hm (List.getElem?_set_self hpassed) (decide_eq_false (Nat.lt_irrefl _))
              (decide_eq_true (Nat.lt_succ_self _)) rfl rfl rfl rfl
          · have hentered : decide (k < passed + 1) = decide (k < passed) := by
              rw [decide_eq_decide]
              omega
            exact .aside (List.getElem?_set_ne hposition) hentered rfl
              (Progress.between?_congr hentered rfl rfl)
  | leaving context answer seen =>
      cases hm : s.middlewares[seen.length]? with
      | none =>
          simp only [advance, hm]
          exact .aside rfl rfl rfl rfl
      | some m =>
          obtain ⟨hpassed, -⟩ := List.getElem?_eq_some_iff.mp hm
          simp only [advance, hm]
          by_cases hposition : seen.length = k
          · subst hposition
            refine .leaves hm (List.getElem?_set_self hpassed) rfl rfl ?_ ?_ rfl rfl
            · simp [Progress.seenBy?]
            · simp [Progress.seenBy?]
          · have hseen : (seen ++ [answer])[k]? = seen[k]? := by
              rcases Nat.lt_or_gt_of_ne hposition with hlt | hgt
              · rw [List.getElem?_eq_none (by simp; omega), List.getElem?_eq_none (by omega)]
              · exact List.getElem?_append_left hgt
            exact .aside (List.getElem?_set_ne hposition) rfl hseen
              (Progress.between?_congr rfl hseen rfl)

/-- A call takes the next number in its first step, and keeps it. -/
theorem seq?_advance (request : Call) (s : DispatchState σ) (progress : Progress) :
    ((d.advance request s progress).1.seq? = progress.seq? ∧
        (d.advance request s progress).2.nextSeq = s.nextSeq) ∨
      (progress.seq? = none ∧
        (d.advance request s progress).1.seq? = some s.nextSeq ∧
        (d.advance request s progress).2.nextSeq = s.nextSeq + 1) := by
  cases progress with
  | waiting => exact .inr ⟨rfl, rfl, rfl⟩
  | entering context passed early =>
      left
      cases hm : s.middlewares[passed]? with
      | none => simp [advance, hm, Progress.seq?]
      | some m => simp [advance, hm, Progress.seq?]
  | leaving context answer seen =>
      left
      cases hm : s.middlewares[seen.length]? with
      | none => simp [advance, hm]
      | some m => simp [advance, hm, Progress.seq?]

end Dispatcher

/-! ## What every step keeps -/

theorem Middleware.KeepsBody.remembering
    {m : Middleware} (h : m.KeepsBody) (context : CallContext) (response : Response) :
    (m.after context response).1.KeepsBody := by
  cases m with
  | tracing inFlight => trivial
  | metrics counters => trivial
  | hooks before after => exact h

namespace Traffic

variable {σ : Type} {d : Dispatcher σ} {t : Traffic σ} {request : Call} {k : Nat}

/-- The numbers of the calls that have begun. -/
def numbers (t : Traffic σ) : List UInt64 :=
  t.calls.filterMap fun call => call.2.seq?

/-- The numbers of the calls between the hooks of the middleware at a position. -/
def between (k : Nat) (t : Traffic σ) : List UInt64 :=
  t.calls.filterMap fun call => call.2.between? k

/-- The calls were numbered one after another, from a first number on. -/
structure Numbered (first : UInt64) (t : Traffic σ) : Prop where
  given : t.numbers.Perm (wordsFrom first t.numbers.length)
  next : t.shared.nextSeq = first + .ofNat t.numbers.length

/-- The tracing middleware at a position keeps numbers of calls between its hooks, each once, and
the numbers of all of them if there are no more calls than words. -/
def Traced (k : Nat) (t : Traffic σ) : Prop :=
  ∃ inFlight, t.shared.middlewares[k]? = some (.tracing inFlight) ∧ inFlight.Nodup ∧
    inFlight ⊆ t.between k ∧ (t.calls.length ≤ 2 ^ 64 → inFlight.Perm (t.between k))

/-- The metrics middleware at a position counts the calls that it has seen, and the codes of the
answers that it has seen. -/
def Counted (k : Nat) (t : Traffic σ) : Prop :=
  ∃ counters, t.shared.middlewares[k]? = some (.metrics counters) ∧
    counters.Tallies (t.calls.countP fun call => call.2.entered k)
      (t.calls.filterMap fun call => (call.2.seenBy? k).bind Response.code?)

theorem filterMap_start {α : Type} {f : Progress → Option α} (hwaiting : f .waiting = none)
    (shared : DispatchState σ) (requests : List Call) :
    (start shared requests).calls.filterMap (fun call => f call.2) = [] := by
  rw [start, List.filterMap_map]
  exact List.filterMap_eq_nil_iff.mpr fun _ _ => hwaiting

theorem numbered_start (shared : DispatchState σ) (requests : List Call) :
    (start shared requests).Numbered shared.nextSeq := by
  have hnone : (start shared requests).numbers = [] :=
    filterMap_start (f := Progress.seq?) rfl shared requests
  constructor
  · rw [hnone]
    exact .nil
  · rw [hnone]
    exact (UInt64.add_zero _).symm

theorem numbers_perm {calls : List (Call × Progress)} (h : t.calls.Perm calls) :
    t.numbers.Perm (calls.filterMap fun call => call.2.seq?) :=
  h.filterMap _

theorem between_perm {calls : List (Call × Progress)} (h : t.calls.Perm calls) (k : Nat) :
    (t.between k).Perm (calls.filterMap fun call => call.2.between? k) :=
  h.filterMap _

/-- A step keeps the numbers, or gives the next one. -/
theorem numbers_step (d : Dispatcher σ) (t : Traffic σ) (i : Nat) :
    ((d.step t i).numbers.Perm t.numbers ∧ (d.step t i).shared.nextSeq = t.shared.nextSeq) ∨
      ((d.step t i).numbers.Perm (t.shared.nextSeq :: t.numbers) ∧
        (d.step t i).shared.nextSeq = t.shared.nextSeq + 1) := by
  obtain hstay | ⟨request, progress, others, hcalls, hcalls', hshared⟩ := d.step_cases t i
  · rw [hstay]
    exact .inl ⟨.refl _, rfl⟩
  have hperm := numbers_perm hcalls
  have hperm' := numbers_perm hcalls'
  rw [List.filterMap_cons] at hperm hperm'
  rcases d.seq?_advance request t.shared progress with
    ⟨hseq, hnext⟩ | ⟨hseq, hseq', hnext⟩
  · simp only [hseq] at hperm'
    exact .inl ⟨hperm'.trans hperm.symm, hshared ▸ hnext⟩
  · simp only [hseq] at hperm
    simp only [hseq'] at hperm'
    exact .inr ⟨hperm'.trans (hperm.symm.cons _), hshared ▸ hnext⟩

theorem Numbered.step {first : UInt64} (h : t.Numbered first) (i : Nat) :
    (d.step t i).Numbered first := by
  rcases numbers_step d t i with ⟨hperm, hnext⟩ | ⟨hperm, hnext⟩
  · exact ⟨hperm.length_eq ▸ hperm.trans h.given, hnext.trans (hperm.length_eq ▸ h.next)⟩
  · have hlength : (d.step t i).numbers.length = t.numbers.length + 1 := hperm.length_eq
    constructor
    · rw [hlength, wordsFrom_succ, ← h.next]
      exact hperm.trans ((h.given.cons _).trans (List.perm_append_singleton _ _).symm)
    · rw [hnext, h.next, hlength, UInt64.ofNat_add, UInt64.ofNat_one, UInt64.add_assoc]

/-- Of no more calls than words each has a number of its own. -/
theorem Numbered.nodup {first : UInt64} (h : t.Numbered first) (hfew : t.calls.length ≤ 2 ^ 64) :
    t.numbers.Nodup := by
  rw [h.given.nodup_iff]
  exact nodup_wordsFrom first (Nat.le_trans (List.length_filterMap_le _ _) hfew)

/-- No other call between two hooks has the number of a call. -/
theorem not_mem_between
    (h : t.numbers.Nodup) {progress : Progress} {others : List (Call × Progress)}
    (hcalls : t.calls.Perm ((request, progress) :: others)) {seq : UInt64}
    (hseq : progress.seq? = some seq) :
    seq ∉ others.filterMap fun call => call.2.between? k := by
  have hperm := numbers_perm hcalls
  simp only [List.filterMap_cons, hseq] at hperm
  have hnew := (List.nodup_cons.mp (hperm.nodup_iff.mp h)).1
  intro hmem
  obtain ⟨call, hcall, hbetween⟩ := List.mem_filterMap.mp hmem
  refine hnew (List.mem_filterMap.mpr ⟨call, hcall, ?_⟩)
  rw [Progress.between?] at hbetween
  split at hbetween
  · exact hbetween
  · cases hbetween

theorem Traced.step {first : UInt64} (hnumbered : t.Numbered first) (h : t.Traced k) (i : Nat) :
    (d.step t i).Traced k := by
  obtain hstay | ⟨request, progress, others, hcalls, hcalls', hshared⟩ := d.step_cases t i
  · rwa [hstay]
  obtain ⟨inFlight, hm, hnodup, hsubset, hall⟩ := h
  have hk : k < t.shared.middlewares.length := (List.getElem?_eq_some_iff.mp hm).1
  have hlength : (d.step t i).calls.length = t.calls.length :=
    hcalls'.length_eq.trans hcalls.length_eq.symm
  have hbefore := between_perm hcalls k
  have hafter := between_perm hcalls' k
  rw [List.filterMap_cons] at hbefore hafter
  rw [Traced, hshared, hlength]
  cases d.passing_of_advance hk request progress with
  | aside hmiddleware hentered hseen hbetween =>
      rw [hbetween] at hafter
      have hsame := hbefore.trans hafter.symm
      exact ⟨inFlight, hmiddleware.trans hm, hnodup, List.Subset.trans hsubset hsame.subset,
        fun hfew => (hall hfew).trans hsame⟩
  | @enters m context hm₁ hm' hentered hentered' hseen hseen' hseq hseq' =>
      obtain rfl := Option.some.inj (hm₁.symm.trans hm)
      rw [Progress.between?_of_not_entered hentered] at hbefore
      rw [Progress.between?_of_entered hentered' hseen' hseq'] at hafter
      refine ⟨_, hm', hnodup.insert, ?_, fun hfew => ?_⟩
      · intro seq hmem
        rw [hafter.mem_iff, List.mem_cons]
        exact (List.mem_insert_iff.mp hmem).imp_right fun hkept =>
          hbefore.mem_iff.mp (hsubset hkept)
      · have hnew := not_mem_between (k := k) (hnumbered.nodup hfew) hcalls hseq
        have hkept := (hall hfew).trans hbefore
        rw [List.insert_of_not_mem fun hmem => hnew (hkept.mem_iff.mp hmem)]
        exact (hkept.cons _).trans hafter.symm
  | @leaves m context answer hm₁ hm' hentered hentered' hseen hseen' hseq hseq' =>
      obtain rfl := Option.some.inj (hm₁.symm.trans hm)
      rw [Progress.between?_of_entered hentered hseen hseq] at hbefore
      rw [Progress.between?_of_seen hseen'] at hafter
      refine ⟨_, hm', hnodup.filter _, ?_, fun hfew => ?_⟩
      · intro seq hmem
        obtain ⟨hkept, hne⟩ := List.mem_filter.mp hmem
        rw [hafter.mem_iff]
        exact (List.mem_cons.mp (hbefore.mem_iff.mp (hsubset hkept))).resolve_left
          (of_decide_eq_true hne)
      · have hnew := not_mem_between (k := k) (hnumbered.nodup hfew) hcalls hseq
        have hothers : ∀ seq ∈ others.filterMap fun call => call.2.between? k,
            decide (seq ≠ context.seq) = true := by
          intro seq hmem
          exact decide_eq_true fun hseq => hnew (hseq ▸ hmem)
        refine (((hall hfew).trans hbefore).filter _).trans (List.Perm.trans ?_ hafter.symm)
        rw [List.filter_cons_of_neg (by simp), List.filter_eq_self.mpr hothers]

theorem Counted.step (h : t.Counted k) (i : Nat) : (d.step t i).Counted k := by
  obtain hstay | ⟨request, progress, others, hcalls, hcalls', hshared⟩ := d.step_cases t i
  · rwa [hstay]
  obtain ⟨counters, hm, htallies⟩ := h
  have hk : k < t.shared.middlewares.length := (List.getElem?_eq_some_iff.mp hm).1
  have hcodes := hcalls.filterMap fun call => (call.2.seenBy? k).bind Response.code?
  have hcodes' := hcalls'.filterMap fun call => (call.2.seenBy? k).bind Response.code?
  have hbegun := hcalls.countP_eq fun call => call.2.entered k
  have hbegun' := hcalls'.countP_eq fun call => call.2.entered k
  rw [List.filterMap_cons] at hcodes hcodes'
  rw [List.countP_cons] at hbegun hbegun'
  rw [Counted, hshared]
  cases d.passing_of_advance hk request progress with
  | aside hmiddleware hentered hseen hbetween =>
      rw [hseen] at hcodes'
      rw [hentered, ← hbegun] at hbegun'
      refine ⟨counters, hmiddleware.trans hm, ?_⟩
      rw [hbegun']
      exact htallies.perm (hcodes.trans hcodes'.symm)
  | @enters m context hm₁ hm' hentered hentered' hseen hseen' hseq hseq' =>
      obtain rfl := Option.some.inj (hm₁.symm.trans hm)
      rw [hseen] at hcodes
      rw [hseen'] at hcodes'
      simp only [hentered, Bool.false_eq_true, if_false, Nat.add_zero] at hbegun
      simp only [hentered', if_true, ← hbegun] at hbegun'
      refine ⟨_, hm', ?_⟩
      rw [hbegun']
      exact htallies.of_begin.perm (hcodes.trans hcodes'.symm)
  | @leaves m context answer hm₁ hm' hentered hentered' hseen hseen' hseq hseq' =>
      obtain rfl := Option.some.inj (hm₁.symm.trans hm)
      simp only [hseen, Option.bind_none] at hcodes
      simp only [hseen', Option.bind_some] at hcodes'
      rw [hentered'.trans hentered.symm, ← hbegun] at hbegun'
      refine ⟨_, hm', ?_⟩
      rw [hbegun']
      refine ((htallies.of_finish answer).perm ?_)
      refine List.Perm.trans ?_ hcodes'.symm
      cases hcode : answer.code? with
      | none => simpa [hcode] using hcodes
      | some code => simpa [hcode] using hcodes.cons code

/-- No middleware changes the body of an answer, and every answer that a middleware has seen has
the code of the answer that its call has. -/
structure KeepsCodes (t : Traffic σ) : Prop where
  keeps : ∀ m ∈ t.shared.middlewares, m.KeepsBody
  code? : ∀ call ∈ t.calls, ∀ context answer seen, call.2 = .leaving context answer seen →
    ∀ response ∈ seen, response.code? = answer.code?

theorem KeepsCodes.step (h : t.KeepsCodes) (i : Nat) : (d.step t i).KeepsCodes := by
  obtain hstay | ⟨request, progress, others, hcalls, hcalls', hshared⟩ := d.step_cases t i
  · rwa [hstay]
  have hset : ∀ {position : Nat} {m : Middleware}, m.KeepsBody →
      ∀ x ∈ t.shared.middlewares.set position m, x.KeepsBody := by
    intro position m hm x hx
    rcases List.mem_or_eq_of_mem_set hx with hx | rfl
    · exact h.keeps x hx
    · exact hm
  have hothers : ∀ call ∈ others, ∀ context answer seen, call.2 = .leaving context answer seen →
      ∀ response ∈ seen, response.code? = answer.code? :=
    fun call hcall => h.code? call (hcalls.mem_iff.mpr (List.mem_cons_of_mem _ hcall))
  have hcode := h.code? (request, progress) (hcalls.mem_iff.mpr (List.mem_cons_self ..))
  suffices hadvance : (∀ m ∈ (d.advance request t.shared progress).2.middlewares, m.KeepsBody) ∧
      ∀ context answer seen,
        (d.advance request t.shared progress).1 = .leaving context answer seen →
        ∀ response ∈ seen, response.code? = answer.code? by
    refine ⟨hshared ▸ hadvance.1, fun call hcall => ?_⟩
    rcases List.mem_cons.mp (hcalls'.mem_iff.mp hcall) with rfl | hcall
    · exact hadvance.2
    · exact hothers call hcall
  cases progress with
  | waiting => exact ⟨h.keeps, fun _ _ _ hleaving => by cases hleaving⟩
  | entering context passed early =>
      cases hm : t.shared.middlewares[passed]? with
      | none =>
          simp only [Dispatcher.advance, hm]
          refine ⟨h.keeps, fun _ _ _ hleaving => ?_⟩
          cases hleaving
          simp
      | some m =>
          simp only [Dispatcher.advance, hm]
          exact ⟨hset (h.keeps m (List.mem_of_getElem? hm)).before,
            fun _ _ _ hleaving => by cases hleaving⟩
  | leaving context answer seen =>
      cases hm : t.shared.middlewares[seen.length]? with
      | none =>
          simp only [Dispatcher.advance, hm]
          exact ⟨h.keeps, hcode⟩
      | some m =>
          simp only [Dispatcher.advance, hm]
          have hkeeps := h.keeps m (List.mem_of_getElem? hm)
          obtain ⟨-, hbody⟩ := hkeeps.after context answer
          refine ⟨hset (hkeeps.remembering context answer), fun _ _ _ hleaving => ?_⟩
          cases hleaving
          have hkept : (m.after context answer).2.code? = answer.code? := by
            rw [Response.code?, hbody, Response.code?]
          intro response hresponse
          rw [hkept]
          rcases List.mem_append.mp hresponse with hearlier | hlast
          · exact hcode context answer seen rfl response hearlier
          · rw [List.mem_singleton.mp hlast]

/-! ## Whole runs -/

/-- What the tracing middleware at one position and the metrics middleware at another say of calls
that have come so far. -/
structure Accounted (t : Traffic σ) (tracer counter : Nat) (inFlight : List UInt64)
    (counters : Metrics) : Prop where
  tracing : t.shared.middlewares[tracer]? = some (.tracing inFlight)
  metrics : t.shared.middlewares[counter]? = some (.metrics counters)
  /-- The calls in flight are those between the hooks of the tracing middleware, if there are no
  more calls than words to number them. -/
  between : t.calls.length ≤ 2 ^ 64 →
    inFlight.length = t.calls.countP fun call => call.2.entered tracer && !call.2.left tracer
  /-- No more calls are in flight than are between those hooks, however many calls there are. -/
  between_le : inFlight.length ≤
    t.calls.countP fun call => call.2.entered tracer && !call.2.left tracer
  /-- When all calls have finished, none is in flight. -/
  settled : (∀ call ∈ t.calls, call.2.finished t.shared.middlewares.length = true) → inFlight = []
  requests : counters.requests.toNat =
    (t.calls.countP fun call => call.2.entered counter) % 2 ^ 64
  /-- An answer is counted under the code that it has. -/
  codeCount : ∀ code, (counters.codeCount code).toNat =
    (t.calls.countP fun call => (call.2.seenBy? counter).bind Response.code? == some code) % 2 ^ 64
  /-- Where all answers have codes, successes and failures make up the answers. -/
  total : (∀ call ∈ t.calls, ∀ answer, call.2.seenBy? counter = some answer →
      answer.code?.isSome = true) →
    (counters.codeCount ErrorCode.ok.code + counters.failures).toNat =
      (t.calls.countP fun call => call.2.left counter) % 2 ^ 64

theorem length_between (k : Nat) (t : Traffic σ) :
    (t.between k).length = t.calls.countP fun call => call.2.entered k && !call.2.left k := by
  rw [between, List.length_filterMap_eq_countP]
  simp only [Progress.isSome_between?]

theorem accounted_of_invariants
    {tracer counter : Nat} (htraced : t.Traced tracer) (hcounted : t.Counted counter) :
    ∃ inFlight counters, t.Accounted tracer counter inFlight counters := by
  obtain ⟨inFlight, htracing, hnodup, hsubset, hall⟩ := htraced
  obtain ⟨counters, hmetrics, htallies⟩ := hcounted
  refine ⟨inFlight, counters, htracing, hmetrics, fun hfew => ?_, ?_, fun hfinished => ?_, ?_,
    fun code => ?_, fun hcodes => ?_⟩
  · rw [(hall hfew).length_eq, length_between]
  · rw [← length_between]
    exact (List.Nodup.subperm hnodup hsubset).length_le
  · have hposition := (List.getElem?_eq_some_iff.mp htracing).1
    have hnone : (t.between tracer).length = 0 := by
      rw [length_between, List.countP_eq_zero]
      intro call hcall
      simp [Progress.left_of_finished hposition (hfinished call hcall)]
    rw [List.length_eq_zero_iff] at hnone
    exact List.subset_nil.mp (hnone ▸ hsubset)
  · rw [htallies.requests, UInt64.toNat_ofNat']
  · rw [htallies.codeCount, UInt64.toNat_ofNat', List.count, List.countP_filterMap]
    congr 1
    refine List.countP_congr fun call _ => ?_
    cases (call.2.seenBy? counter).bind Response.code? with
    | none => simp
    | some other => simp
  · rw [htallies.successes_add_failures, UInt64.toNat_ofNat', List.length_filterMap_eq_countP]
    congr 1
    refine List.countP_congr fun call hcall => ?_
    cases hseen : call.2.seenBy? counter with
    | none => simp [Progress.left, hseen]
    | some answer => simp [Progress.left, hseen, hcodes call hcall answer hseen]

end Traffic

namespace Dispatcher

variable {σ : Type}

/-- In whatever order calls take their steps, and whatever identifiers they carry, the tracing and
the metrics middleware account for all of them, as far as words can.  Where no middleware changes
the body of an answer, a call is counted under the code of the answer that it ends with. -/
theorem accounted_of_run
    (d : Dispatcher σ) (shared : DispatchState σ) (requests : List Call) (schedule : List Nat)
    {tracer counter : Nat} (htracer : shared.middlewares[tracer]? = some .newTracing)
    (hcounter : shared.middlewares[counter]? = some .newMetrics) :
    (∃ inFlight counters,
      (d.run (.start shared requests) schedule).Accounted tracer counter inFlight counters) ∧
    ((∀ m ∈ shared.middlewares, m.KeepsBody) →
      ∀ call ∈ (d.run (.start shared requests) schedule).calls, ∀ context answer seen,
        call.2 = .leaving context answer seen →
          ∀ response ∈ seen, response.code? = answer.code?) := by
  constructor
  · have hrun := run_induction (d := d)
      (P := fun t => t.Numbered shared.nextSeq ∧ t.Traced tracer ∧ t.Counted counter)
      (fun t i h => ⟨h.1.step i, h.2.1.step h.1 i, h.2.2.step i⟩) schedule
      (t := .start shared requests) ⟨Traffic.numbered_start shared requests, ?_, ?_⟩
    · exact Traffic.accounted_of_invariants hrun.2.1 hrun.2.2
    · have hnone : (Traffic.start shared requests).between tracer = [] :=
        Traffic.filterMap_start (f := Progress.between? tracer) rfl shared requests
      exact ⟨[], htracer, .nil, List.nil_subset _, fun _ => by rw [hnone]⟩
    · refine ⟨.empty, hcounter, ?_⟩
      rw [Traffic.filterMap_start
        (f := fun progress => (progress.seenBy? counter).bind Response.code?) rfl]
      have hnone : (Traffic.start shared requests).calls.countP
          (fun call => call.2.entered counter) = 0 := by
        simp [Traffic.start, List.countP_eq_zero, Progress.entered]
      rw [hnone]
      exact .of_empty
  · intro hkeeps
    have hrun : (d.run (.start shared requests) schedule).KeepsCodes :=
      run_induction (fun t i h => h.step i) schedule ⟨hkeeps, fun call hcall _ _ _ hleaving => by
        obtain ⟨request, -, rfl⟩ := List.mem_map.mp hcall
        cases hleaving⟩
    exact hrun.code?

/-- Two calls under one identifier to a dispatcher without routes.  The second overtakes the first,
and is answered while the first is in flight. -/
def overtaking : Traffic Unit :=
  run ⟨⟨[]⟩, ⟨[], []⟩, fun _ _ => .ok ()⟩
    (.start ⟨(), [.newTracing, .newMetrics], 0⟩
      [⟨"GET", "/", ⟨[]⟩, [], [], ⟨7⟩⟩, ⟨"GET", "/", ⟨[]⟩, [], [], ⟨7⟩⟩])
    [0, 1, 1, 0, 1, 1, 1, 1]

theorem accounted_of_run_overtaking :
    ∃ inFlight counters, overtaking.Accounted 0 1 inFlight counters ∧ inFlight.length = 1 ∧
      counters.requests.toNat = 1 ∧ (counters.codeCount ErrorCode.notFound.code).toNat = 1 := by
  obtain ⟨⟨inFlight, counters, haccounted⟩, -⟩ := @accounted_of_run Unit
    ⟨⟨[]⟩, ⟨[], []⟩, fun _ _ => .ok ()⟩ ⟨(), [.newTracing, .newMetrics], 0⟩
    [⟨"GET", "/", ⟨[]⟩, [], [], ⟨7⟩⟩, ⟨"GET", "/", ⟨[]⟩, [], [], ⟨7⟩⟩]
    [0, 1, 1, 0, 1, 1, 1, 1] 0 1 rfl rfl
  refine ⟨inFlight, counters, haccounted, ?_, ?_, ?_⟩
  · rw [haccounted.between (by decide +kernel)]
    decide +kernel
  · rw [haccounted.requests]
    decide +kernel
  · rw [haccounted.codeCount]
    decide +kernel

end Dispatcher
end TypedRoutes
