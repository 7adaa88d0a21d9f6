import HttpRouting.Logging.Sampler
import HttpRouting.Number.Float
import HttpRouting.Settings

/-!
What is logged and how, as environment variables tell.
-/

namespace HttpRouting

namespace LogSettings

/-- How log lines are written. -/
inductive Format
  | json
  | pretty
  deriving DecidableEq, Repr

/-- Reads a format, letter case aside; JSON unless the text is the word for the other. No character
outside ASCII is the upper case of a letter in that word, so ASCII folding is enough. -/
def Format.ofText (t : Text) : Format :=
  if Text.lower t = ['p', 'r', 'e', 't', 't', 'y'] then .pretty else .json

end LogSettings

/-- What is logged, and how. -/
structure LogSettings where
  level : Text := ['i', 'n', 'f', 'o']
  format : LogSettings.Format := .json
  mode : Sampler.Mode := .all
  /-- The fraction of events kept when they are sampled. -/
  rate : Float := 0.1
  /-- Only events from here are logged. -/
  target : Option Text := none
  /-- Adds the place of its origin to each event. -/
  showsPlace : Bool := false

namespace LogSettings

/-- Reads a truth value from exactly one of two words. -/
def truth? (t : Text) : Option Bool :=
  if t = ['t', 'r', 'u', 'e'] then some true
  else if t = ['f', 'a', 'l', 's', 'e'] then some false
  else none

/-- Reads the logging variables. -/
def ofEnvironment (env : Environment) : LogSettings :=
  let default : LogSettings := {}
  { level := env.get "MUXTREE_LOG_LEVEL" some default.level
    format := env.get "MUXTREE_LOG_FORMAT" (some ∘ .ofText) default.format
    mode := env.get "MUXTREE_LOG_SAMPLING_MODE" (some ∘ .ofText) default.mode
    rate := env.get "MUXTREE_LOG_SAMPLING_RATE" Number.float? default.rate
    target := env "MUXTREE_LOG_TARGET_FILTER"
    showsPlace := env.get "MUXTREE_LOG_INCLUDE_LOCATION" truth? default.showsPlace }

end LogSettings

end HttpRouting
