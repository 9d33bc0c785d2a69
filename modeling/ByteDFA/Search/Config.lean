import ByteDFA.Text.Value

/-!
# The configuration of a search

Each option is either set or left to its default: by default a search may take any number of steps
and uses the accelerator of the automaton.
-/

set_option autoImplicit false

namespace ByteDFA

/-- The options of a search, each of them set or not. -/
structure SearchConfig where
  /-- The number of states that may be executed, or no limit, if set. -/
  stepLimitOption : Option (Option Nat) := none
  /-- Whether the accelerator may be used, if set. -/
  accelerateOption : Option Bool := none
  deriving DecidableEq

namespace SearchConfig

/-- The configuration with the step limit set. -/
def withStepLimit (config : SearchConfig) (limit : Option Nat) : SearchConfig :=
  { config with stepLimitOption := some limit }

/-- The configuration with acceleration switched on or off. -/
def withAccelerate (config : SearchConfig) (yes : Bool) : SearchConfig :=
  { config with accelerateOption := some yes }

/-- The number of states that may be executed, if there is a limit. -/
def stepLimit? (config : SearchConfig) : Option Nat := config.stepLimitOption.getD none

/-- Whether the accelerator may be used. -/
def accelerate (config : SearchConfig) : Bool := config.accelerateOption.getD true

/-- The configuration with every option that another one sets taken from there. -/
def overwrite (config other : SearchConfig) : SearchConfig where
  stepLimitOption := other.stepLimitOption.or config.stepLimitOption
  accelerateOption := other.accelerateOption.or config.accelerateOption

/-- The text of a step limit as a value. -/
def limitText (limit : Option Nat) : String :=
  ValueText.option (limit.map fun n => toString n)

/-- The text of the configuration as a value. -/
def debug (config : SearchConfig) : String :=
  ValueText.fields "Config" [
    ("step_limit", ValueText.option (config.stepLimitOption.map limitText)),
    ("accelerate", ValueText.option (config.accelerateOption.map fun yes => toString yes))]

@[simp] theorem stepLimit?_withAccelerate (config : SearchConfig) (yes : Bool) :
    (config.withAccelerate yes).stepLimit? = config.stepLimit? := rfl

@[simp] theorem accelerate_withAccelerate (config : SearchConfig) (yes : Bool) :
    (config.withAccelerate yes).accelerate = yes := rfl

end SearchConfig

/-- Runs searches with a fixed configuration. -/
structure Executor where
  config : SearchConfig := {}
  deriving DecidableEq

namespace Executor

/-- The executor with the default configuration, overwritten by the given one. -/
def ofConfig (config : SearchConfig) : Executor := ⟨SearchConfig.overwrite {} config⟩

end Executor
end ByteDFA
