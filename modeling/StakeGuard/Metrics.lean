import StakeGuard.Ordered
import StakeGuard.Table

/-!
# Metrics

What a node exports of its work: for each scope the state of its pools as of the last report, and
counts of refusals, of verified and of rejected messages. Operations emit signals; the metrics are
what a list of signals adds up to.
-/

namespace StakeGuard

/-- Something worth counting, as an operation reports it. -/
inductive Signal where
  | pools (scope : String) (validator atLarge : UInt64) (active : Nat)
  | refused (scope reason : String)
  | verified
  | rejected (errorClass reason : String)
deriving DecidableEq

/-- The exported series: gauges by scope, counters by their labels. -/
structure Metrics where
  validatorBytes : Table String Nat
  atLargeBytes : Table String Nat
  activeNodes : Table String Nat
  refusals : Table (String × String) Nat
  verified : Nat
  rejections : Table (String × String) Nat
deriving DecidableEq

namespace Metrics

/-- The series before anything is observed. -/
def empty : Metrics := ⟨.empty, .empty, .empty, .empty, 0, .empty⟩

instance : Inhabited Metrics := ⟨empty⟩

/-- The largest value of a gauge, which is a signed word; counters have no limit. -/
def gaugeLimit : Nat := 0x7fffffffffffffff

/-- A gauge with a new value, capped at the largest. -/
def setGauge (gauge : Table String Nat) (scope : String) (value : Nat) : Table String Nat :=
  gauge.insert scope (Nat.min value gaugeLimit)

/-- The value of a counter under a label, zero where nothing was counted under it. -/
def count (counter : Table (String × String) Nat) (label : String × String) : Nat :=
  (counter.get? label).getD 0

/-- A counter with one more count under a label. -/
def increment (counter : Table (String × String) Nat) (label : String × String) :
    Table (String × String) Nat :=
  counter.insert label (count counter label + 1)

/-- Takes in one signal. The state of pools replaces that of the last report of the scope; everything
else is counted once. -/
def observe (m : Metrics) : Signal → Metrics
  | .pools scope validator atLarge active =>
    { m with
      validatorBytes := setGauge m.validatorBytes scope validator.toNat
      atLargeBytes := setGauge m.atLargeBytes scope atLarge.toNat
      activeNodes := setGauge m.activeNodes scope active }
  | .refused scope reason => { m with refusals := increment m.refusals (scope, reason) }
  | .verified => { m with verified := m.verified + 1 }
  | .rejected errorClass reason =>
    { m with rejections := increment m.rejections (errorClass, reason) }

/-- Takes in signals in order. -/
def observeAll (m : Metrics) (signals : List Signal) : Metrics := signals.foldl observe m

/-- The values of a gauge in the order of the scopes' labels. -/
def listGauge (gauge : Table String Nat) : List (String × Nat) :=
  gauge.entries.mergeSort fun a b => (compare a.1 b.1).isLE

/-- The values of a counter in the order of their labels, the first label before the second. -/
def listCounter (counter : Table (String × String) Nat) : List ((String × String) × Nat) :=
  counter.entries.mergeSort fun a b =>
    ((compare a.1.1 b.1.1).then (compare a.1.2 b.1.2)).isLE

end Metrics

end StakeGuard
