import StakeGuard.ValidatorSet

/-!
# Rosters

A validator set and the listeners that follow it. A new listener first hears of every validator
already there; from then on each change is reported once to each listener, in the order in which they
registered. A replica that applies the reports it hears has the set's validators (`Replica`).
-/

namespace StakeGuard

/-- A validator set and the names of those who follow it, in the order of registration. -/
structure Roster where
  set : ValidatorSet
  listeners : List String
deriving DecidableEq

/-- An event and the listener who hears of it. -/
structure Report where
  listener : String
  event : StakeEvent
deriving DecidableEq

namespace Roster

/-- The roster without validators and listeners. -/
def empty : Roster := ⟨.empty, []⟩

instance : Inhabited Roster := ⟨empty⟩

/-- The reports of an event, one for each listener in the order of registration; none where there is no
event. -/
def reports (r : Roster) (event : Option StakeEvent) : List Report :=
  match event with
  | none => []
  | some event => r.listeners.map fun listener => ⟨listener, event⟩

/-- The roster after a call, the reports of it, and the validator that was asked to be removed. -/
structure Reply where
  roster : Roster
  reports : List Report
  removed : Option Validator
deriving DecidableEq

/-- Takes over the set of an update and reports its event. -/
def commit (r : Roster) (update : ValidatorSet.Update) : Reply :=
  ⟨{ r with set := update.set }, r.reports update.event, update.removed⟩

/-- Carries out a request on the set; a refused one reports nothing. -/
def apply (r : Roster) (change : StakeChange) : Except ValidatorError Reply :=
  (r.set.apply change).map r.commit

/-- Adds a listener after telling it of every validator. -/
def register (r : Roster) (listener : String) : Reply where
  roster := { r with listeners := r.listeners ++ [listener] }
  reports := r.set.records.map fun v => ⟨listener, .added v.node v.key v.weight⟩
  removed := none

/-- A roster as shown for debugging: how many validators and listeners it has, and the total weight. -/
def shown (r : Roster) : String :=
  let fields := s!"len: {r.set.size}, total_weight: {r.set.totalWeight}"
  s!"ValidatorSet \x7b {fields}, listeners: {r.listeners.length} \x7d"

end Roster

/-- What a listener can reconstruct from the reports it hears: the key and weight of every node. -/
abbrev Replica := Table NodeId (Option PublicKey × UInt64)

namespace Replica

/-- Applies an event; none where the event does not fit what was heard before. -/
def hear (replica : Replica) : StakeEvent → Option Replica
  | .added node key weight =>
    match replica.get? node with
    | none => some (replica.insert node (key, weight))
    | some _ => none
  | .removed node weight =>
    match replica.get? node with
    | none => none
    | some known => if known.2 = weight then some (replica.erase node) else none
  | .reweighted node old new =>
    match replica.get? node with
    | none => none
    | some known => if known.2 = old then some (replica.insert node (known.1, new)) else none

/-- Applies the events of one listener among a list of reports, in order. -/
def hearAll (replica : Replica) (listener : String) (reports : List Report) : Option Replica :=
  (reports.filter (·.listener = listener)).foldlM (fun replica report => replica.hear report.event)
    replica

end Replica

end StakeGuard
