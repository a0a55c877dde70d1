import StakeGuard.Amount

/-!
# Pool sizes

How many bytes of messages a scope takes in at a time: a pool for validators, a pool for everyone,
and how much of the latter one node may hold.
-/

namespace StakeGuard

/-- The number of bytes in 1 MiB. -/
def mebibyte : UInt64 := 1048576

/-- The sizes of the two pools, and what one node may hold of the pool for everyone. They are any words
until they are checked. -/
structure ThrottleConfig where
  validatorPool : UInt64
  atLargePool : UInt64
  nodeCap : UInt64
deriving DecidableEq

/-- Why pool sizes cannot be accounted for. -/
inductive ThrottleConfigError where
  | emptyPools
  | overflow (validatorPool atLargePool : UInt64)
deriving DecidableEq

namespace ThrottleConfigError

/-- The name of an error's variant, the same for both errors. -/
def kind (_ : ThrottleConfigError) : String := "InvalidParameters"

/-- The text of an error. -/
def message : ThrottleConfigError → String
  | emptyPools =>
    "Invalid throttler parameters: vdrAllocSize and atLargeAllocSize cannot both be 0"
  | overflow validatorPool atLargePool =>
    let sum := s!"vdrAllocSize {validatorPool} + atLargeAllocSize {atLargePool}"
    s!"Invalid throttler parameters: {sum} overflows"

end ThrottleConfigError

namespace ThrottleConfig

/-- 32 MiB for validators, 6 MiB for everyone, of which one node may hold 2 MiB. -/
def default : ThrottleConfig := ⟨32 * mebibyte, 6 * mebibyte, 2 * mebibyte⟩

instance : Inhabited ThrottleConfig := ⟨default⟩

/-- Refuses two empty pools, and pools whose sum is not a word. -/
def validate (c : ThrottleConfig) : Except ThrottleConfigError Unit :=
  if c.validatorPool = 0 ∧ c.atLargePool = 0 then .error .emptyPools
  else
    match Amount.add? c.validatorPool c.atLargePool with
    | none => .error (.overflow c.validatorPool c.atLargePool)
    | some _ => .ok ()

/-- The given sizes, if they can be accounted for. -/
def make (validatorPool atLargePool nodeCap : UInt64) :
    Except ThrottleConfigError ThrottleConfig :=
  let config : ThrottleConfig := { validatorPool, atLargePool, nodeCap }
  config.validate.map fun _ => config

/-- The size of both pools together, capped at the largest word. -/
def total (c : ThrottleConfig) : UInt64 := Amount.addCapped c.validatorPool c.atLargePool

end ThrottleConfig

end StakeGuard
