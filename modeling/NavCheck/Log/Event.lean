import NavCheck.Log.Settings

/-!
# Events of a run

What a run tells about its progress besides its output: a row of events, each with a level and named values.
-/

namespace NavCheck

/-- A value of an event. -/
inductive EventValue where
  | text (value : String)
  | count (value : Nat)
  | flag (value : Bool)
deriving DecidableEq

/-- An event. -/
structure Event where
  level : LogLevel
  fields : List (String × EventValue)
deriving DecidableEq

/-- An event of a stage of a command. -/
def Event.stage (level : LogLevel) (stage command status : String) (fields : List (String × EventValue)) : Event :=
  ⟨level, [("stage", .text stage), ("command", .text command), ("status", .text status)] ++ fields⟩

end NavCheck
