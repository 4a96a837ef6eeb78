import TypedRoutes.Decimal.Binary64
import TypedRoutes.Text.Blank

/-!
# Sampling of log events

A sampler decides event by event what is logged.  In sampled mode it keeps every warning, every
error and every span, and of the other events each one whose position among them is a multiple of
its interval.  The interval is the reciprocal of the rate, rounded.
-/

namespace TypedRoutes

/-- Which events are kept. -/
inductive SamplingMode
  | all
  /-- Warnings and errors only. -/
  | errorOnly
  /-- Warnings, errors, spans, and a share of the rest. -/
  | sampled
  deriving DecidableEq

namespace SamplingMode

/-- The mode that a text names, in any ASCII case; every mode that is not known is `all`. -/
def ofText (s : String) : SamplingMode :=
  match Text.lowerAscii (Text.trim s) with
  | "error-only" | "error_only" => errorOnly
  | "sampled" => sampled
  | _ => all

/-- The name of a mode. -/
def name : SamplingMode → String
  | all => "all"
  | errorOnly => "error-only"
  | sampled => "sampled"

end SamplingMode

/-- How severe an event is. -/
inductive LogLevel
  | trace
  | debug
  | info
  | warn
  | error
  deriving DecidableEq

/-- Whether a level is that of warnings or errors. -/
def LogLevel.isSevere : LogLevel → Bool
  | warn | error => true
  | trace | debug | info => false

/-- What is offered to a sampler. -/
inductive LogEvent
  | event (level : LogLevel)
  | span (level : LogLevel)
  deriving DecidableEq

/-- The level of an event or a span. -/
def LogEvent.level : LogEvent → LogLevel
  | event level | span level => level

/-- Whether this is a span. -/
def LogEvent.isSpan : LogEvent → Bool
  | span _ => true
  | event _ => false

/-- A sampler with the number of events that it has counted. -/
structure Sampler where
  mode : SamplingMode
  /-- Zero keeps no event that is counted. -/
  interval : Nat
  /-- A 64-bit word, which starts over after the greatest. -/
  count : Nat
  deriving DecidableEq

namespace Sampler

/-- The reciprocal of `num / den` to the nearest integer, a half going up, and at most the greatest
64-bit word; zero for zero. -/
def reciprocal (num den : Nat) : Nat :=
  min ((2 * den + num) / (2 * num)) (Nat.pow 2 64 - 1)

/-- A sampler for a rate that is an exact fraction between zero and one. -/
def ofFraction (mode : SamplingMode) (num den : Nat) : Sampler :=
  ⟨mode, reciprocal num den, 0⟩

/-- A positive finite number as a fraction. -/
def fraction (x : Float) : Nat × Nat :=
  let parts := Binary64.decode x
  if 0 ≤ parts.exponent then (parts.mantissa * Nat.pow 2 parts.exponent.toNat, 1)
  else (parts.mantissa, Nat.pow 2 (-parts.exponent).toNat)

/-- The interval for a rate: the nearest binary64 number to its reciprocal, rounded, and at most the
greatest 64-bit word.  Rates above one count as one; for every rate that is not positive there is no
interval. -/
def intervalOf (rate : Float) : Nat :=
  if 0 < rate then
    let (num, den) := fraction (if 1 < rate then 1 else rate)
    let quotient := Binary64.ofRatio false den num
    if quotient.isFinite then
      let (n, d) := fraction quotient
      reciprocal d n
    else
      Nat.pow 2 64 - 1
  else
    0

/-- A sampler for a rate. -/
def ofRate (mode : SamplingMode) (rate : Float) : Sampler :=
  ⟨mode, intervalOf rate, 0⟩

/-- Whether an event is kept, and the sampler afterwards. -/
def offer (s : Sampler) (e : LogEvent) : Bool × Sampler :=
  match s.mode with
  | .all => (true, s)
  | .errorOnly => (e.level.isSevere, s)
  | .sampled =>
    if e.level.isSevere || e.isSpan then (true, s)
    else (0 < s.interval && s.count % s.interval == 0,
      { s with count := (s.count + 1) % Nat.pow 2 64 })

/-- Which of several events are kept. -/
def offerAll : Sampler → List LogEvent → List Bool
  | _, [] => []
  | s, e :: rest =>
    let (kept, s) := s.offer e
    kept :: offerAll s rest

end Sampler
end TypedRoutes
