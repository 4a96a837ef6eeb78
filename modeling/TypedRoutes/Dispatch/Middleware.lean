import TypedRoutes.Dispatch.RequestId
import TypedRoutes.Dispatch.Response
import TypedRoutes.Routing.Router

/-!
# Middleware

A middleware sees every call twice: before it is handled, when it may answer the call itself, and
after it was answered, when it may change the answer.  Every middleware sees both, also when another
one answered early or no route matched.  What a middleware remembers between calls is part of its
value.
-/

namespace TypedRoutes

/-- What middleware and handlers learn about a call. -/
structure CallContext where
  requestId : RequestId
  /-- The position of the call among all calls.  Identifiers may be repeated at any time, positions
  only when all 64-bit words have been given. -/
  seq : UInt64
  method : String
  path : String
  /-- Empty where no route matched. -/
  handlerName : String
  pathParams : List (String × String)
  headers : Headers

namespace CallContext

/-- The value of the first header of a name. -/
def header? (context : CallContext) (name : String) : Option String :=
  context.headers.get? name

/-- The last text bound to a path variable. -/
def pathParam? (context : CallContext) (name : String) : Option String :=
  lastParam? context.pathParams name

end CallContext

/-- Counters of answered calls; they start over after the greatest word. -/
structure Metrics where
  /-- The number of calls that were begun. -/
  requests : UInt64
  /-- The number of calls answered with each outcome code. -/
  byCode : List (Int × UInt64)

namespace Metrics

/-- The counters before the first call. -/
def empty : Metrics := ⟨0, []⟩

/-- The counters with one more call begun. -/
def begin (m : Metrics) : Metrics :=
  { m with requests := m.requests + 1 }

/-- Counts with one more for a code. -/
def bump (code : Int) : List (Int × UInt64) → List (Int × UInt64)
  | [] => [(code, 1)]
  | (c, n) :: rest => if c = code then (c, n + 1) :: rest else (c, n) :: bump code rest

/-- The counters with one more call answered; answers without an outcome code are not counted. -/
def finish (m : Metrics) (response : Response) : Metrics :=
  match response.code? with
  | some code => { m with byCode := bump code m.byCode }
  | none => m

/-- The number of calls answered with a code. -/
def codeCount (m : Metrics) (code : Int) : UInt64 :=
  (m.byCode.lookup code).getD 0

/-- The number of calls answered with a code other than that of a success. -/
def failures (m : Metrics) : UInt64 :=
  m.byCode.foldl (fun n (code, count) => if code ≠ ErrorCode.ok.code then n + count else n) 0

end Metrics

/-- A middleware with what it remembers. -/
inductive Middleware
  /-- Keeps the calls that were begun and not yet answered. -/
  | tracing (inFlight : List UInt64)
  | metrics (counters : Metrics)
  /-- Remembers nothing. -/
  | hooks (before : CallContext → Option Response)
      (after : CallContext → Response → Response)

namespace Middleware

/-- The tracing middleware before the first call. -/
def newTracing : Middleware := tracing []

/-- The metrics middleware before the first call. -/
def newMetrics : Middleware := metrics Metrics.empty

/-- A middleware that neither answers nor changes anything. -/
def inert : Middleware := hooks (fun _ => none) fun _ response => response

/-- What a middleware does before a call is handled. -/
def before (context : CallContext) : Middleware → Middleware × Option Response
  | tracing inFlight => (tracing (inFlight.insert context.seq), none)
  | metrics counters => (metrics counters.begin, none)
  | hooks b a => (hooks b a, b context)

/-- What a middleware does after a call was answered. -/
def after (context : CallContext) (response : Response) :
    Middleware → Middleware × Response
  | tracing inFlight => (tracing (inFlight.filter (· ≠ context.seq)), response)
  | metrics counters => (metrics (counters.finish response), response)
  | hooks b a => (hooks b a, a context response)

/-- Runs every middleware before a call, in order; the first answer among theirs counts. -/
def beforeAll (context : CallContext) (middlewares : List Middleware) :
    List Middleware × Option Response :=
  let results := middlewares.map (before context)
  (results.map Prod.fst, results.findSome? Prod.snd)

/-- Runs every middleware after a call, in order; each sees the answer that the one before it
left. -/
def afterAll (context : CallContext) :
    List Middleware → Response → List Middleware × Response
  | [], response => ([], response)
  | m :: rest, response =>
    let (m, response) := m.after context response
    let (rest, response) := afterAll context rest response
    (m :: rest, response)

end Middleware
end TypedRoutes
