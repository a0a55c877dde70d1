import StakeGuard.Identifier
import StakeGuard.Table
import StakeGuard.Throttle.Config

/-!
# Budgets

Closed accounting of the bytes that nodes hold of two pools. A validator draws first on its share of
the validator pool, in proportion to its weight and less what it holds of it; the rest, and all that
other nodes ask for, comes out of the pool for everyone, up to a cap for each node. A request that
both together cannot cover takes nothing. Bytes go back to the pool for everyone first.
-/

namespace StakeGuard

/-- Bytes of each of the two pools. -/
structure PoolBytes where
  validator : UInt64
  atLarge : UInt64
deriving DecidableEq

namespace PoolBytes

/-- Nothing of either pool. -/
def none : PoolBytes := ⟨0, 0⟩

instance : Inhabited PoolBytes := ⟨none⟩

/-- The bytes of both pools together, as a word. -/
def total (b : PoolBytes) : UInt64 := b.validator + b.atLarge

/-- The bytes of both, pool by pool. -/
def plus (a b : PoolBytes) : PoolBytes := ⟨a.validator + b.validator, a.atLarge + b.atLarge⟩

/-- What is left after taking bytes away, pool by pool. -/
def minus (a b : PoolBytes) : PoolBytes := ⟨a.validator - b.validator, a.atLarge - b.atLarge⟩

end PoolBytes

/-- Where a node stands with its bytes. -/
inductive Admission where
  | idle
  | admitted
  /-- The node holds bytes, and was refused more since it last took or gave back any. -/
  | exhausted
deriving DecidableEq

/-- How an admission is called where it is shown. -/
def Admission.label : Admission → String
  | idle => "Idle"
  | admitted => "Admitted"
  | exhausted => "Exhausted"

/-- Why bytes are not granted, or not taken back. -/
inductive ThrottleError where
  | exhausted (node : NodeId) (requested available : UInt64)
  | overRelease (node : NodeId) (requested outstanding : UInt64)
  | cancelled (node : NodeId)
deriving DecidableEq

namespace ThrottleError

/-- The name of an error's variant. -/
def kind : ThrottleError → String
  | exhausted .. => "Exhausted"
  | overRelease .. => "OverRelease"
  | cancelled _ => "Cancelled"

/-- The text of an error. -/
def message : ThrottleError → String
  | exhausted node requested available =>
    s!"Byte budget exhausted for {node}: requested {requested}, available {available}"
  | overRelease node requested outstanding =>
    s!"Over-release by {node}: releasing {requested}, outstanding {outstanding}"
  | cancelled node => s!"Acquire cancelled for {node}"

/-- The short name of a refusal in counters. -/
def reason : ThrottleError → String
  | exhausted .. => "exhausted"
  | overRelease .. => "other"
  | cancelled _ => "cancelled"

end ThrottleError

/-- The weight of a node and the weight of all, at the moment of a request. Nothing says that the former
is part of the latter. -/
structure Stake where
  weight : UInt64
  total : UInt64
deriving DecidableEq

/-- The part of a pool in proportion to a stake, rounded down: nothing where the node or all nodes have
no weight, and the whole pool where the part is no word. It is at most the pool as long as the weight is
at most the total, which is not asked here. -/
def allowance (pool : UInt64) (stake : Stake) : UInt64 :=
  if stake.weight = 0 ∨ stake.total = 0 then 0
  else
    -- the product fits 128 bits, but the quotient need not fit 64
    let share := pool.toNat * stake.weight.toNat / stake.total.toNat
    if share < Amount.bound then .ofNat share else pool

/-- The state of both pools: what is left, who holds what, and who was refused. -/
structure Budget where
  config : ThrottleConfig
  remaining : PoolBytes
  usage : Table NodeId PoolBytes
  refused : Table NodeId Unit
deriving DecidableEq

namespace Budget

/-- The budget in which nobody holds anything. -/
def full (config : ThrottleConfig) : Budget :=
  ⟨config, ⟨config.validatorPool, config.atLargePool⟩, .empty, .empty⟩

/-- What a node holds of each pool. -/
def held (b : Budget) (node : NodeId) : PoolBytes := (b.usage.get? node).getD .none

/-- Where a node stands. A refusal counts only for a node that holds bytes, and is forgotten when bytes
are next granted to it or returned. -/
def admission (b : Budget) (node : NodeId) : Admission :=
  if b.refused.contains node then .exhausted
  else if b.usage.contains node then .admitted
  else .idle

/-- The number of nodes that hold bytes. -/
def activeNodes (b : Budget) : Nat := b.usage.size

/-- The number of nodes that hold bytes and were refused more. -/
def exhaustedNodes (b : Budget) : Nat := b.refused.size

/-- What a node may still draw on the validator pool. -/
def validatorRoom (b : Budget) (node : NodeId) (stake : Stake) : UInt64 :=
  if stake.weight = 0 then 0
  else
    Amount.min (Amount.monus (allowance b.config.validatorPool stake) (b.held node).validator)
      b.remaining.validator

/-- What a node may still draw on the pool for everyone. -/
def atLargeRoom (b : Budget) (node : NodeId) : UInt64 :=
  Amount.min (Amount.monus b.config.nodeCap (b.held node).atLarge) b.remaining.atLarge

/-- How bytes for a node would be taken from the pools. -/
def plan (b : Budget) (node : NodeId) (size : UInt64) (stake : Stake) :
    Except ThrottleError PoolBytes :=
  let validator := Amount.min (b.validatorRoom node stake) size
  let room := b.atLargeRoom node
  let atLarge := size - validator
  if room < atLarge then .error (.exhausted node size (validator + room))
  else .ok { validator, atLarge }

/-- Hands out bytes as planned and forgets an earlier refusal; a grant of nothing changes nothing. -/
def commit (b : Budget) (node : NodeId) (grant : PoolBytes) : Budget :=
  if grant.total = 0 then b
  else
    { b with
      remaining := b.remaining.minus grant
      usage := b.usage.insert node ((b.held node).plus grant)
      refused := b.refused.erase node }

/-- Notes that a node was refused, where it holds anything. -/
def markRefused (b : Budget) (node : NodeId) : Budget :=
  if b.usage.contains node then { b with refused := b.refused.insert node () } else b

/-- Takes bytes for a node, all of them or none. -/
def acquire (b : Budget) (node : NodeId) (size : UInt64) (stake : Stake) :
    Except ThrottleError PoolBytes × Budget :=
  match b.plan node size stake with
  | .ok grant => (.ok grant, b.commit node grant)
  | .error e => (.error e, b.markRefused node)

/-- The table of holdings with another holding of a node; a node without bytes has no entry. -/
def settle (usage : Table NodeId PoolBytes) (node : NodeId) (left : PoolBytes) :
    Table NodeId PoolBytes :=
  if left = .none then usage.erase node else usage.insert node left

/-- Gives back bytes that a node holds, to the pool for everyone first. -/
def release (b : Budget) (node : NodeId) (size : UInt64) :
    Except ThrottleError PoolBytes × Budget :=
  if size = 0 then (.ok .none, b)
  else
    let held := b.held node
    if held.total < size then (.error (.overRelease node size held.total), b)
    else
      let atLarge := Amount.min size held.atLarge
      let returned : PoolBytes := ⟨size - atLarge, atLarge⟩
      (.ok returned, { b with
        remaining := b.remaining.plus returned
        usage := settle b.usage node (held.minus returned)
        refused := b.refused.erase node })

/-- All that nodes hold of the validator pool, as an exact number. -/
def validatorUsed (b : Budget) : Nat := Amount.sum (b.usage.entries.map (·.2.validator.toNat))

/-- All that nodes hold of the pool for everyone, as an exact number. -/
def atLargeUsed (b : Budget) : Nat := Amount.sum (b.usage.entries.map (·.2.atLarge.toNat))

/-- Whether what is left and what is held add up to the pools. -/
def isBalanced (b : Budget) : Bool :=
  b.validatorUsed + b.remaining.validator.toNat = b.config.validatorPool.toNat
    && b.atLargeUsed + b.remaining.atLarge.toNat = b.config.atLargePool.toNat

end Budget

end StakeGuard
