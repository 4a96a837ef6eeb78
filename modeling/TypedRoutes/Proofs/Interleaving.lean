import Mathlib.Logic.Function.Iterate
import TypedRoutes.Proofs.CallStages

/-!
# Calls that are answered at the same time

A call is answered in steps: it takes its number, every middleware sees it, it is answered, and
every middleware sees the answer.  The steps of several calls may follow each other in any order.
They share the state of the dispatcher, and each step works on it as a whole.  A call whose steps
nothing interrupts is answered as `Dispatcher.dispatch` answers it.

Handlers and middleware with a memory of their own are covered as far as their answers go: a call is
told apart from all others by its number, so an answer may be any that depends on the call.
-/

namespace TypedRoutes

/-- How far a call has come. -/
inductive Progress
  | waiting
  /-- The call has a number.  Some middlewares have seen it, and the first answer among theirs is
  kept. -/
  | entering (context : CallContext) (passed : Nat) (early : Option Response)
  /-- The call has an answer.  Some middlewares have seen it, each the answer that the one before it
  left. -/
  | leaving (context : CallContext) (answer : Response) (seen : List Response)

/-- Calls with their progress, and the state that they share. -/
structure Traffic (σ : Type) where
  shared : DispatchState σ
  calls : List (Call × Progress)

/-- Calls that have not begun. -/
def Traffic.start {σ : Type} (shared : DispatchState σ) (requests : List Call) : Traffic σ :=
  ⟨shared, requests.map fun request => (request, .waiting)⟩

namespace Dispatcher

variable {σ : Type} (d : Dispatcher σ)

/-- The answer of the first middleware that gives one, or else that of the route; and the state of
the application afterwards. -/
def respond (request : Call) (context : CallContext) (early : Option Response) (app : σ) :
    Response × σ :=
  match early with
  | some response => (response, app)
  | none => d.answer request context app

/-- The next step of a call. -/
def advance (request : Call) (s : DispatchState σ) : Progress → Progress × DispatchState σ
  | .waiting => (.entering (d.contextIn request s) 0 none, { s with nextSeq := s.nextSeq + 1 })
  | .entering context passed early =>
    match s.middlewares[passed]? with
    | some m =>
      let (m, answer) := m.before context
      (.entering context (passed + 1) (early.or answer),
        { s with middlewares := s.middlewares.set passed m })
    | none =>
      let (answer, app) := d.respond request context early s.app
      (.leaving context (answer.setHeader "x-request-id" context.requestId.text) [],
        { s with app := app })
  | .leaving context answer seen =>
    match s.middlewares[seen.length]? with
    | some m =>
      let (m, left) := m.after context answer
      (.leaving context left (seen ++ [answer]),
        { s with middlewares := s.middlewares.set seen.length m })
    | none => (.leaving context answer seen, s)

/-- One call takes its next step. -/
def step (t : Traffic σ) (i : Nat) : Traffic σ :=
  match t.calls[i]? with
  | some (request, progress) =>
    let (progress, shared) := d.advance request t.shared progress
    ⟨shared, t.calls.set i (request, progress)⟩
  | none => t

/-- Calls take steps in the given order. -/
def run (t : Traffic σ) (schedule : List Nat) : Traffic σ :=
  schedule.foldl d.step t

variable {d} {t : Traffic σ} {request : Call}

/-- What holds at the start and after every step holds after a run. -/
theorem run_induction
    {P : Traffic σ → Prop} (hstep : ∀ t i, P t → P (d.step t i)) (schedule : List Nat)
    (hstart : P t) : P (d.run t schedule) := by
  induction schedule generalizing t with
  | nil => exact hstart
  | cons i schedule ih => exact ih (hstep t i hstart)

theorem step_of_getElem? {i : Nat} {progress : Progress}
    (h : t.calls[i]? = some (request, progress)) :
    d.step t i = ⟨(d.advance request t.shared progress).2,
      t.calls.set i (request, (d.advance request t.shared progress).1)⟩ := by
  simp only [step, h]

/-- A step advances one of the calls, or there is no such call. -/
theorem step_cases (t : Traffic σ) (i : Nat) :
    d.step t i = t ∨
      ∃ request progress others,
        t.calls.Perm ((request, progress) :: others) ∧
        (d.step t i).calls.Perm
          ((request, (d.advance request t.shared progress).1) :: others) ∧
        (d.step t i).shared = (d.advance request t.shared progress).2 := by
  cases hcall : t.calls[i]? with
  | none =>
      left
      simp only [step, hcall]
  | some call =>
      right
      obtain ⟨request, progress⟩ := call
      obtain ⟨hi, hget⟩ := List.getElem?_eq_some_iff.mp hcall
      obtain ⟨before, after, hcalls, -, hset⟩ := List.exists_of_set hi
      rw [hget] at hcalls
      refine ⟨request, progress, before ++ after, ?_, ?_, ?_⟩
      · rw [hcalls]
        exact List.perm_middle
      · rw [step_of_getElem? hcall, hset]
        exact List.perm_middle
      · rw [step_of_getElem? hcall]

/-! ## Calls that nothing interrupts -/

/-- The next step of a call and of the state that it works on. -/
def advanceBoth (d : Dispatcher σ) (request : Call) (x : Progress × DispatchState σ) :
    Progress × DispatchState σ :=
  d.advance request x.2 x.1

theorem run_replicate
    {i : Nat} {progress : Progress} (h : t.calls[i]? = some (request, progress)) (n : Nat) :
    d.run t (List.replicate n i) =
      ⟨((d.advanceBoth request)^[n] (progress, t.shared)).2,
        t.calls.set i (request, ((d.advanceBoth request)^[n] (progress, t.shared)).1)⟩ := by
  induction n generalizing t progress with
  | zero =>
      obtain ⟨hi, hget⟩ := List.getElem?_eq_some_iff.mp h
      have hset : t.calls.set i (request, progress) = t.calls := by
        rw [← hget, List.set_getElem_self]
      simp [run, hset]
  | succ n ih =>
      have hi : i < t.calls.length := (List.getElem?_eq_some_iff.mp h).1
      have hnext : (d.step t i).calls[i]? =
          some (request, (d.advance request t.shared progress).1) := by
        rw [step_of_getElem? h, List.getElem?_set_self hi]
      have hrest := ih hnext
      rw [step_of_getElem? h] at hrest
      rw [List.replicate_succ, run, List.foldl_cons, step_of_getElem? h]
      rw [run] at hrest
      rw [hrest, List.set_set]
      rfl

/-- The middlewares that have not seen a call see it one after another. -/
theorem iterate_entering
    (context : CallContext) (early : Option Response) (app : σ) (nextSeq : UInt64)
    (earlier rest : List Middleware) :
    (d.advanceBoth request)^[rest.length]
        (.entering context earlier.length early, ⟨app, earlier ++ rest, nextSeq⟩) =
      (.entering context (earlier.length + rest.length)
          (early.or (Middleware.beforeAll context rest).2),
        ⟨app, earlier ++ (Middleware.beforeAll context rest).1, nextSeq⟩) := by
  induction rest generalizing earlier early with
  | nil => simp [Middleware.beforeAll]
  | cons m rest ih =>
      have hstep : d.advanceBoth request
          (.entering context earlier.length early, ⟨app, earlier ++ m :: rest, nextSeq⟩) =
          (.entering context (earlier ++ [(m.before context).1]).length
              (early.or (m.before context).2),
            ⟨app, (earlier ++ [(m.before context).1]) ++ rest, nextSeq⟩) := by
        simp [advanceBoth, advance]
      rw [List.length_cons, Function.iterate_succ_apply, hstep, ih]
      have hfirst : (early.or (m.before context).2).or (Middleware.beforeAll context rest).2 =
          early.or (Middleware.beforeAll context (m :: rest)).2 := by
        cases hanswer : (m.before context).2 with
        | none => simp [Middleware.beforeAll, hanswer]
        | some answer => simp [Middleware.beforeAll, hanswer]
      rw [hfirst]
      simp [Middleware.beforeAll, Nat.add_comm, Nat.add_left_comm]

/-- The middlewares that have not seen the answer see it one after another. -/
theorem iterate_leaving
    (context : CallContext) (answer : Response) (app : σ) (nextSeq : UInt64) (seen : List Response)
    (earlier rest : List Middleware) (hseen : seen.length = earlier.length) :
    ∃ later, later.length = seen.length + rest.length ∧
      (d.advanceBoth request)^[rest.length]
          (.leaving context answer seen, ⟨app, earlier ++ rest, nextSeq⟩) =
        (.leaving context (Middleware.afterAll context rest answer).2 later,
          ⟨app, earlier ++ (Middleware.afterAll context rest answer).1, nextSeq⟩) := by
  induction rest generalizing earlier answer seen with
  | nil => exact ⟨seen, rfl, rfl⟩
  | cons m rest ih =>
      have hstep : d.advanceBoth request
          (.leaving context answer seen, ⟨app, earlier ++ m :: rest, nextSeq⟩) =
          (.leaving context (m.after context answer).2 (seen ++ [answer]),
            ⟨app, (earlier ++ [(m.after context answer).1]) ++ rest, nextSeq⟩) := by
        simp [advanceBoth, advance, hseen]
      obtain ⟨later, hlength, hrest⟩ := ih (m.after context answer).2 (seen ++ [answer])
        (earlier ++ [(m.after context answer).1]) (by simp [hseen])
      refine ⟨later, ?_, ?_⟩
      · rw [hlength, List.length_append, List.length_singleton, List.length_cons]
        omega
      · rw [List.length_cons, Function.iterate_succ_apply, hstep, hrest, List.append_assoc]
        rfl

/-- A call is dispatched in three parts: before it is answered, its answer, and afterwards. -/
theorem dispatch_eq_of_parts
    {s : DispatchState σ} {before after : List Middleware} {early : Option Response}
    {answer left : Response} {app : σ}
    (hbefore : Middleware.beforeAll (d.contextIn request s) s.middlewares = (before, early))
    (hanswer : d.respond request (d.contextIn request s) early s.app = (answer, app))
    (hafter : Middleware.afterAll (d.contextIn request s) before
      (answer.setHeader "x-request-id" request.requestId.text) = (after, left)) :
    d.dispatch request s = (left, ⟨app, after, s.nextSeq + 1⟩) := by
  rw [contextIn] at hbefore hanswer hafter
  simp only [dispatch, hbefore]
  cases early with
  | some response =>
      obtain ⟨rfl, rfl⟩ := Prod.mk.inj hanswer
      rw [contextOf] at hafter ⊢
      rw [hafter]
  | none =>
      simp only [respond, Dispatcher.answer] at hanswer
      cases hroute : d.router.route request.method request.path with
      | none =>
          simp only [hroute] at hanswer hafter ⊢
          obtain ⟨rfl, rfl⟩ := Prod.mk.inj hanswer
          rw [contextOf] at hafter ⊢
          rw [hafter]
      | some r =>
          simp only [hroute] at hanswer hafter ⊢
          rw [hanswer]
          rw [contextOf] at hafter ⊢
          rw [hafter]

/-- A call whose steps nothing interrupts comes to the answer and leaves the state that dispatching
it gives. -/
theorem run_uninterrupted
    {i : Nat} (h : t.calls[i]? = some (request, .waiting)) :
    ∃ seen, seen.length = t.shared.middlewares.length ∧
      d.run t (List.replicate (2 * t.shared.middlewares.length + 2) i) =
        ⟨(d.dispatch request t.shared).2,
          t.calls.set i (request, .leaving (d.contextIn request t.shared)
            (d.dispatch request t.shared).1 seen)⟩ := by
  obtain ⟨⟨app, middlewares, nextSeq⟩, calls⟩ := t
  obtain ⟨before, early, hbefore⟩ : ∃ before early, Middleware.beforeAll
      (d.contextIn request ⟨app, middlewares, nextSeq⟩) middlewares = (before, early) := ⟨_, _, rfl⟩
  obtain ⟨answer, next, hanswer⟩ : ∃ answer next, d.respond request
      (d.contextIn request ⟨app, middlewares, nextSeq⟩) early app = (answer, next) := ⟨_, _, rfl⟩
  obtain ⟨after, left, hafter⟩ : ∃ after left, Middleware.afterAll
      (d.contextIn request ⟨app, middlewares, nextSeq⟩) before
      (answer.setHeader "x-request-id" request.requestId.text) = (after, left) := ⟨_, _, rfl⟩
  have hdispatch : d.dispatch request ⟨app, middlewares, nextSeq⟩ =
      (left, ⟨next, after, nextSeq + 1⟩) :=
    dispatch_eq_of_parts hbefore hanswer hafter
  generalize hcontext : d.contextIn request ⟨app, middlewares, nextSeq⟩ = context at *
  have hid : context.requestId = request.requestId := by rw [← hcontext]; rfl
  have hlength : before.length = middlewares.length := by
    rw [Middleware.beforeAll] at hbefore
    rw [← (Prod.mk.inj hbefore).1, List.length_map, List.length_map]
  have hfirst : d.advanceBoth request (.waiting, ⟨app, middlewares, nextSeq⟩) =
      (.entering context 0 none, ⟨app, middlewares, nextSeq + 1⟩) := by
    rw [advanceBoth, advance, hcontext]
  have hentering : (d.advanceBoth request)^[middlewares.length]
      (.entering context 0 none, ⟨app, middlewares, nextSeq + 1⟩) =
      (.entering context before.length early, ⟨app, before, nextSeq + 1⟩) := by
    have h := @iterate_entering σ d request context none app (nextSeq + 1) [] middlewares
    simpa [hbefore, hlength] using h
  have hmiddle : d.advanceBoth request
      (.entering context before.length early, ⟨app, before, nextSeq + 1⟩) =
      (.leaving context (answer.setHeader "x-request-id" request.requestId.text) [],
        ⟨next, before, nextSeq + 1⟩) := by
    simp [advanceBoth, advance, hanswer, hid]
  obtain ⟨seen, hseen, hleaving⟩ := @iterate_leaving σ d request context
    (answer.setHeader "x-request-id" request.requestId.text) next (nextSeq + 1) [] [] before rfl
  rw [hafter] at hleaving
  have hcount : 2 * middlewares.length + 2 =
      before.length + (1 + (middlewares.length + 1)) := by omega
  refine ⟨seen, by simpa [hlength] using hseen, ?_⟩
  rw [run_replicate h, hdispatch, hcount, Function.iterate_add_apply, Function.iterate_add_apply,
    Function.iterate_one, Function.iterate_succ_apply, hfirst, hentering, hmiddle]
  simp only [List.nil_append] at hleaving
  rw [hleaving]

end Dispatcher
end TypedRoutes
