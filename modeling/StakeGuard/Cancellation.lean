/-!
# Cancellation

A request may be called off before it is looked at, or while it is under way.
-/

namespace StakeGuard

/-- When a request is called off. -/
inductive Cancellation where
  | never
  | before
  | during
deriving DecidableEq

/-- A flag that is looked at once, when the request comes in. -/
instance : Coe Bool Cancellation := ⟨fun cancelled => if cancelled then .before else .never⟩

end StakeGuard
