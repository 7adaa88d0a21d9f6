import HttpRouting.Event

/-!
Sampling of events by severity. Warnings and errors always pass; of the rest, all pass, none, or
every so many-th one.
-/

namespace HttpRouting

/-- Warnings and errors. -/
def Level.isSerious : Level → Bool
  | .warn | .error => true
  | _ => false

namespace Sampler

/-- Which events are kept. -/
inductive Mode
  | all
  /-- Only warnings and errors. -/
  | errorOnly
  /-- Warnings and errors, and a fraction of the rest. -/
  | sampled
  deriving DecidableEq, Repr

/-- Reads a mode, letter case aside; a text that names none means that all events are kept. No
character outside ASCII is the upper case of a letter in the names, so ASCII folding is enough. -/
def Mode.ofText (t : Text) : Mode :=
  let word := String.ofList (Text.lower t)
  if word = "error-only" || word = "error_only" then .errorOnly
  else if word = "sampled" then .sampled
  else .all

/-- What reaches a sampler: an event, or the opening of a span. -/
inductive Signal
  | event (level : Level)
  | span
  deriving DecidableEq, Repr

/-- What a place in the program is told once about all signals that come from it. -/
inductive Interest
  | never
  /-- Each signal is asked about. -/
  | sometimes
  | always
  deriving DecidableEq, Repr

end Sampler

/-- A sampler with the number of events that it has counted. -/
structure Sampler where
  mode : Sampler.Mode
  /-- The fraction to keep, between 0 and 1 unless it is a NaN. -/
  rate : Float
  count : UInt64

namespace Sampler

/-- A number moved into the range from 0 to 1. A NaN stays one. -/
def clamp (rate : Float) : Float :=
  if rate < 0 then 0 else if 1 < rate then 1 else rate

def new (mode : Mode) (rate : Float) : Sampler := ⟨mode, clamp rate, 0⟩

/-- The distance between kept events: the rounded reciprocal of the rate, 0 for a NaN. -/
def interval (s : Sampler) : UInt64 := (1 / s.rate).round.toUInt64

/-- Whether the level alone lets an event pass. -/
def enables (s : Sampler) (level : Level) : Bool :=
  match s.mode with
  | .all | .sampled => true
  | .errorOnly => level.isSerious

/-- Decides on one event. Only events below a warning are counted, and only when they are sampled at
a rate that is not zero. -/
def offer (s : Sampler) (level : Level) : Bool × Sampler :=
  match s.mode with
  | .all | .errorOnly => (s.enables level, s)
  | .sampled =>
    if level.isSerious then (true, s)
    else if s.rate ≤ 0 then (false, s)
    else
      (if 0 < s.interval then s.count % s.interval = 0 else false, { s with count := s.count + 1 })

/-- Whether a signal is kept. Spans are never counted and never kept. -/
def accept (s : Sampler) : Signal → Bool × Sampler
  | .event level => s.offer level
  | .span => (false, s)

/-- Decides on one signal after another. -/
def acceptAll (s : Sampler) : List Signal → List Bool
  | [] => []
  | signal :: rest =>
    let (kept, s) := s.accept signal
    kept :: acceptAll s rest

/-- Whether a signal may be recorded at all. Every span may, so that kept events have theirs. -/
def records (s : Sampler) : Signal → Bool
  | .event level => s.enables level
  | .span => true

/-- What the place that a signal comes from is told. Only where events are sampled does the level
not decide once for all. -/
def interest (s : Sampler) : Signal → Interest
  | .span => .always
  | .event level =>
    if s.enables level then if s.mode = .sampled then .sometimes else .always else .never

end Sampler

end HttpRouting
