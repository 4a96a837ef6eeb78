/-!
# Readiness of a listener

A server that was started is probed until it accepts a connection.  Requests are sent only to a
server that is ready.
-/

namespace TypedRoutes

/-- The number of probes that are made. -/
def probeCount : Nat := 50

/-- The listener accepted none of the probes. -/
structure NotReady where
  deriving DecidableEq

/-- The message about a listener that is not ready. -/
def NotReady.message (_ : NotReady) : String :=
  "server not ready"

/-- Probes a listener; `accepts` tells whether it accepts the probe of a number. -/
def awaitReady (accepts : Nat → Bool) : Except NotReady Unit :=
  if (List.range probeCount).any accepts then .ok () else .error ⟨⟩

/-- A listener is found ready exactly if it accepts one of the probes. -/
theorem awaitReady_eq_ok_iff (accepts : Nat → Bool) :
    awaitReady accepts = .ok () ↔ ∃ i, i < probeCount ∧ accepts i = true := by
  simp only [awaitReady, List.any_eq_true, List.mem_range]
  split <;> simp_all

end TypedRoutes
