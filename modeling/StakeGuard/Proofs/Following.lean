import StakeGuard.Proofs.StakeRefinement
import StakeGuard.Scope

/-!
# Listeners follow a validator set

A request that has an effect amounts to one event, which the weight of its node determines
(`ValidatorSet.event_eq`), and whoever knows the set before it can apply the event and knows the set
after it (`Replica.Knows.follow`). Main statement: a listener that registers at any point of a scope's
life can replay all that it hears, and always knows the validators there are
(`Scope.replica_of_listener`).
-/

namespace StakeGuard

namespace StakeChange

/-- The node that a request is about. -/
def node : StakeChange → NodeId
  | add node .. | remove node | setWeight node _ | addWeight node _ | removeWeight node _ => node

/-- Whether a request asks for weight to be changed by nothing. -/
def isIdle : StakeChange → Bool
  | addWeight _ delta | removeWeight _ delta => delta = 0
  | add .. | remove .. | setWeight .. => false

/-- What there is to tell of a request that is granted, from the weight that its node had. -/
def event (weight : UInt64) : StakeChange → Option StakeEvent
  | add node key _ weight => some (.added node key weight)
  | remove node => some (.removed node weight)
  | setWeight node new => some (.reweighted node weight new)
  | addWeight node delta =>
    if delta = 0 then none else some (.reweighted node weight (weight + delta))
  | removeWeight node delta =>
    if delta = 0 then none
    else if weight = delta then some (.removed node delta)
    else some (.reweighted node weight (weight - delta))

/-- Only a change of weight by nothing is not told. -/
theorem event_eq_none_iff {weight : UInt64} {change : StakeChange} :
    change.event weight = none ↔ change.isIdle := by
  cases change with
  | add | remove | setWeight => simp [event, isIdle]
  | addWeight node delta => by_cases hdelta : delta = 0 <;> simp [event, isIdle, hdelta]
  | removeWeight node delta =>
    by_cases hdelta : delta = 0
    · simp [event, isIdle, hdelta]
    · by_cases hall : weight = delta <;> simp [event, isIdle, hdelta, hall]

end StakeChange

namespace ValidatorSet

variable {s : ValidatorSet} {change : StakeChange} {update : Update}

theorem weight_of_resolve {node : NodeId} {p : Nat} {r : ValidatorRecord}
    (h : s.resolve node = .ok (p, r)) : s.weight node = r.weight := by
  unfold resolve at h
  split at h
  · cases h
  next position hposition =>
    split at h
    · cases h
    next record hrecord =>
      split at h
      · cases h
        rw [weight, record?, hposition, Option.bind_some, hrecord]
      · cases h

/-- The event of an update is determined by the request and the weight that its node had. -/
theorem event_eq (hok : s.apply change = .ok update) :
    update.event = change.event (s.weight change.node) := by
  cases change with
  | add node key tx weight =>
    simp only [apply, add] at hok
    repeat' split at hok
    all_goals cases hok
    rfl
  | remove node =>
    simp only [apply, remove] at hok
    split at hok
    · cases hok
    · next hresolve =>
      cases hok
      simp [StakeChange.event, StakeChange.node, weight_of_resolve hresolve]
  | setWeight node weight =>
    simp only [apply, setWeight] at hok
    split at hok
    · cases hok
    · next hresolve =>
      repeat' split at hok
      all_goals cases hok
      simp [StakeChange.event, StakeChange.node, weight_of_resolve hresolve]
  | addWeight node delta =>
    simp only [apply, addWeight] at hok
    split at hok
    · cases hok
    next hresolve =>
      simp only [StakeChange.event, StakeChange.node, weight_of_resolve hresolve]
      split at hok
      · next hdelta =>
        cases hok
        rw [if_pos hdelta]
      · next hdelta =>
        split at hok
        · cases hok
        next weight hweight =>
          split at hok <;> cases hok
          rw [if_neg hdelta, Amount.add_eq_of_add? hweight]
  | removeWeight node delta =>
    simp only [apply, removeWeight] at hok
    split at hok
    · cases hok
    next p r hresolve =>
      simp only [StakeChange.event, StakeChange.node, weight_of_resolve hresolve]
      split at hok
      · next hdelta =>
        cases hok
        rw [if_pos hdelta]
      next hdelta =>
        rw [if_neg hdelta]
        split at hok
        · cases hok
        split at hok
        · next hall =>
          rw [remove, hresolve] at hok
          cases hok
          rw [if_pos hall, hall]
        · next hall =>
          cases hok
          rw [if_neg hall]

theorem Holds.exists_apply {m : StakeMap} (h : Holds s m) (hok : s.apply change = .ok update) :
    ∃ m' v, m.apply change = .ok (m', v) ∧ Holds update.set m' := by
  have hagree := h.apply change
  rw [hok] at hagree
  obtain ⟨⟨m', v⟩, hm, hs', -⟩ := hagree.exists_ok
  exact ⟨m', v, hm, hs'⟩

end ValidatorSet

namespace Replica

variable {R : Replica} {s : ValidatorSet} {m : StakeMap}

/-- The replica has every member of a map, with its key and weight. -/
def Knows (R : Replica) (m : StakeMap) : Prop :=
  ∀ node, R.get? node = (m.get? node).map fun member => (member.key, member.weight)

/-- Applies an event where there is one. -/
def follow (R : Replica) : Option StakeEvent → Option Replica
  | none => some R
  | some event => R.hear event

namespace Knows

theorem empty : Knows .empty (.empty : StakeMap) := fun _ => rfl

theorem insert (h : R.Knows m) (node : NodeId) (member : Member) :
    Knows (Table.insert R node (member.key, member.weight)) (m.insert node member) := by
  intro other
  rw [Table.get?_insert, Table.get?_insert]
  split
  · rfl
  · exact h other

theorem erase (h : R.Knows m) (node : NodeId) : Knows (Table.erase R node) (m.erase node) := by
  intro other
  rw [Table.get?_erase, Table.get?_erase]
  split
  · rfl
  · exact h other

theorem hear_added (h : R.Knows m) {node : NodeId} (hm : m.get? node = none) (member : Member) :
    ∃ R', R.hear (.added node member.key member.weight) = some R' ∧
      R'.Knows (m.insert node member) := by
  have hR : R.get? node = none := by rw [h, hm]; rfl
  exact ⟨_, by rw [hear, hR], h.insert node member⟩

theorem hear_removed (h : R.Knows m) {node : NodeId} {member : Member}
    (hm : m.get? node = some member) :
    ∃ R', R.hear (.removed node member.weight) = some R' ∧ R'.Knows (m.erase node) := by
  have hR : R.get? node = some (member.key, member.weight) := by rw [h, hm]; rfl
  exact ⟨_, by simp only [hear, hR, if_true], h.erase node⟩

theorem hear_reweighted (h : R.Knows m) {node : NodeId} {member : Member}
    (hm : m.get? node = some member) (weight : UInt64) :
    ∃ R', R.hear (.reweighted node member.weight weight) = some R' ∧
      R'.Knows (m.insert node { member with weight }) := by
  have hR : R.get? node = some (member.key, member.weight) := by rw [h, hm]; rfl
  exact ⟨_, by simp only [hear, hR, if_true], h.insert node { member with weight }⟩

/-- Whoever knows what a set holds can follow what is told of a request to it, and knows what the set
holds after it. -/
theorem follow (h : R.Knows m) (hs : s.Holds m) {change : StakeChange}
    {update : ValidatorSet.Update} (hok : s.apply change = .ok update) :
    ∃ R' m', R.follow update.event = some R' ∧ update.set.Holds m' ∧ R'.Knows m' := by
  obtain ⟨m', v, hm, hs'⟩ := hs.exists_apply hok
  have hweight : ∀ {node member}, m.get? node = some member → s.weight node = member.weight := by
    intro node member hnode
    rw [hs.mirrors.weight, hnode]
    rfl
  suffices hfollow : ∃ R', R.follow (change.event (s.weight change.node)) = some R' ∧ R'.Knows m' by
    obtain ⟨R', hR', hknows⟩ := hfollow
    exact ⟨R', m', ValidatorSet.event_eq hok ▸ hR', hs', hknows⟩
  cases change with
  | add node key tx weight =>
    obtain ⟨_, hadd, heq⟩ := Outcome.map_eq_ok_iff.mp hm
    cases heq
    obtain ⟨hnew, rfl⟩ := StakeMap.add_eq_ok hadd
    exact h.hear_added hnew ⟨key, tx, weight⟩
  | remove node =>
    obtain ⟨⟨_, _⟩, hremove, heq⟩ := Outcome.map_eq_ok_iff.mp hm
    cases heq
    obtain ⟨member, hnode, rfl⟩ := StakeMap.remove_eq_ok hremove
    rw [StakeChange.event, StakeChange.node, hweight hnode]
    exact h.hear_removed hnode
  | setWeight node weight =>
    obtain ⟨_, hset, heq⟩ := Outcome.map_eq_ok_iff.mp hm
    cases heq
    obtain ⟨member, hnode, rfl⟩ := StakeMap.setWeight_eq_ok hset
    rw [StakeChange.event, StakeChange.node, hweight hnode]
    exact h.hear_reweighted hnode weight
  | addWeight node delta =>
    obtain ⟨_, hadd, heq⟩ := Outcome.map_eq_ok_iff.mp hm
    cases heq
    obtain ⟨member, hnode, rfl⟩ := StakeMap.addWeight_eq_ok hadd
    rw [StakeChange.event, StakeChange.node, hweight hnode]
    split
    · exact ⟨R, rfl, h⟩
    · exact h.hear_reweighted hnode _
  | removeWeight node delta =>
    obtain ⟨_, hremove, heq⟩ := Outcome.map_eq_ok_iff.mp hm
    cases heq
    obtain ⟨member, hnode, rfl⟩ := StakeMap.removeWeight_eq_ok hremove
    rw [StakeChange.event, StakeChange.node, hweight hnode]
    split
    · exact ⟨R, rfl, h⟩
    · split
      · next hall => exact hall ▸ h.hear_removed hnode
      · exact h.hear_reweighted hnode _

end Knows

/-! ## Hearing lists of reports -/

variable {listener : String}

theorem hearAll_append (R : Replica) (listener : String) (reports later : List Report) :
    R.hearAll listener (reports ++ later) =
      (R.hearAll listener reports).bind (·.hearAll listener later) := by
  rw [hearAll, List.filter_append, List.foldlM_append]
  rfl

theorem hearAll_eq_self {reports : List Report} (h : ∀ report ∈ reports, report.listener ≠ listener)
    (R : Replica) : R.hearAll listener reports = some R := by
  have hnone : reports.filter (·.listener = listener) = [] := by
    simpa [List.filter_eq_nil_iff] using h
  rw [hearAll, hnone]
  rfl

/-- A listener that is registered once hears an event once. -/
theorem hearAll_reports {r : Roster} (h : r.listeners.count listener = 1) (R : Replica)
    (event : Option StakeEvent) : R.hearAll listener (r.reports event) = R.follow event := by
  cases event with
  | none => rfl
  | some event =>
    have hone : r.listeners.filter (· = listener) = [listener] := by
      rw [List.filter_eq, h]
      rfl
    have hheard : (r.reports (some event)).filter (·.listener = listener) = [⟨listener, event⟩] := by
      rw [Roster.reports, List.filter_map]
      exact congrArg (List.map _) hone
    rw [hearAll, hheard, follow, List.foldlM_cons]
    cases R.hear event <;> rfl

/-- Validators that a replica does not know yet can be added one after the other. -/
theorem exists_replay {records : List ValidatorRecord} (hnodup : (records.map (·.node)).Nodup)
    {R : Replica} (hfresh : ∀ r ∈ records, R.get? r.node = none) :
    ∃ R', records.foldlM (fun R r => R.hear (.added r.node r.key r.weight)) R = some R' ∧
      ∀ node known, R'.get? node = some known ↔
        R.get? node = some known ∨ ∃ r ∈ records, r.node = node ∧ (r.key, r.weight) = known := by
  induction records generalizing R with
  | nil => exact ⟨R, rfl, by simp⟩
  | cons r rest ih =>
    obtain ⟨hnew, hrest⟩ := List.nodup_cons.mp hnodup
    have hr := hfresh r List.mem_cons_self
    have hfresh' : ∀ r' ∈ rest, (Table.insert R r.node (r.key, r.weight)).get? r'.node = none := by
      intro r' hr'
      have hne : r'.node ≠ r.node := fun heq => hnew (List.mem_map.mpr ⟨r', hr', heq⟩)
      rw [Table.get?_insert, if_neg hne]
      exact hfresh r' (List.mem_cons_of_mem _ hr')
    obtain ⟨R', hfold, hknown⟩ := ih hrest hfresh'
    refine ⟨R', ?_, fun node known => ?_⟩
    · rw [List.foldlM_cons, hear, hr]
      exact hfold
    · rw [hknown, Table.get?_insert]
      by_cases hnode : node = r.node
      · subst hnode
        simp [hr]
      · simp [hnode, Ne.symm hnode]

/-- A new listener can replay what it is first told, and then knows every validator. -/
theorem hearAll_register {r : Roster} {m : StakeMap} (h : r.set.Holds m) (listener : String) :
    ∃ R, hearAll .empty listener (r.register listener).reports = some R ∧ R.Knows m := by
  have hnodup : (r.set.records.map (·.node)).Nodup := by
    have hlist := h.mirrors.nodup_list
    rwa [ValidatorSet.list, List.map_map] at hlist
  obtain ⟨R, hfold, hknown⟩ := exists_replay hnodup fun _ _ => Table.get?_empty _
  refine ⟨R, ?_, fun node => Option.ext fun known => ?_⟩
  · have hall : (r.register listener).reports.filter (·.listener = listener) =
        (r.register listener).reports := by
      simp [Roster.register]
    rw [hearAll, hall, Roster.register, List.foldlM_map]
    exact hfold
  · rw [hknown, Table.get?_empty, Option.map_eq_some_iff]
    simp only [h.get?_eq_some_iff]
    constructor
    · rintro (hnone | ⟨v, hv, rfl, rfl⟩)
      · cases hnone
      · exact ⟨⟨v.key, v.tx, v.weight⟩, ⟨v, hv, rfl⟩, rfl⟩
    · rintro ⟨member, ⟨v, hv, hentry⟩, rfl⟩
      cases hentry
      exact .inr ⟨v, hv, rfl, rfl⟩

end Replica

/-! ## Runs of a scope -/

/-- The listener that a call registers. -/
def ScopeCall.registered? : ScopeCall → Option String
  | .register listener => some listener
  | _ => none

theorem mem_registered_iff {listener : String} {calls : List ScopeCall} :
    listener ∈ calls.filterMap ScopeCall.registered? ↔ .register listener ∈ calls := by
  rw [List.mem_filterMap]
  constructor
  · rintro ⟨c, hc, hname⟩
    cases c <;> cases hname
    exact hc
  · exact fun h => ⟨_, h, rfl⟩

/-- What a call can do to a roster, and what it reports. -/
inductive Roster.Turn (r : Roster) : ScopeCall → Roster → List Report → Prop
  | changed {change : StakeChange} {update : ValidatorSet.Update}
    (hok : r.set.apply change = .ok update) :
    Turn r (.change change) { r with set := update.set } (r.reports update.event)
  | registered (listener : String) :
    Turn r (.register listener) (r.register listener).roster (r.register listener).reports
  | kept {c : ScopeCall} (h : c.registered? = none) : Turn r c r []

namespace Roster

variable {r r' : Roster} {c : ScopeCall} {calls : List ScopeCall} {reports new : List Report}
  {listener : String}

theorem listener_mem_of_mem_reports {event : Option StakeEvent} {report : Report}
    (h : report ∈ r.reports event) : report.listener ∈ r.listeners := by
  cases event with
  | none => cases h
  | some event =>
    obtain ⟨name, hname, rfl⟩ := List.mem_map.mp h
    exact hname

/-- The roster after some calls on an empty one: those who registered are told, and no one else. -/
structure Told (r : Roster) (calls : List ScopeCall) (reports : List Report) : Prop where
  holds : ∃ m, r.set.Holds m
  listeners_eq : r.listeners = calls.filterMap ScopeCall.registered?
  listener_mem : ∀ report ∈ reports, report.listener ∈ r.listeners

theorem told_empty : empty.Told [] [] := ⟨⟨_, .empty⟩, rfl, nofun⟩

/-- Every call keeps it so that the registered are told and no one else. -/
theorem Told.turn (h : r.Told calls reports) (hturn : r.Turn c r' new) :
    r'.Told (calls ++ [c]) (reports ++ new) := by
  cases hturn with
  | @changed change update hok =>
    obtain ⟨m, hm⟩ := h.holds
    obtain ⟨m', -, -, hm'⟩ := hm.exists_apply hok
    refine ⟨⟨m', hm'⟩, ?_, ?_⟩
    · rw [List.filterMap_append, ← h.listeners_eq]
      exact (List.append_nil _).symm
    · intro report hreport
      rcases List.mem_append.mp hreport with hreport | hreport
      · exact h.listener_mem report hreport
      · exact listener_mem_of_mem_reports hreport
  | registered listener =>
    refine ⟨h.holds, ?_, ?_⟩
    · rw [List.filterMap_append, ← h.listeners_eq]
      rfl
    · intro report hreport
      rcases List.mem_append.mp hreport with hreport | hreport
      · exact List.mem_append_left _ (h.listener_mem report hreport)
      · obtain ⟨v, -, rfl⟩ := List.mem_map.mp hreport
        exact List.mem_append_right _ (List.mem_singleton.mpr rfl)
  | kept hnone =>
    refine ⟨h.holds, ?_, ?_⟩
    · rw [List.filterMap_append, ← h.listeners_eq, List.filterMap_cons, hnone]
      exact (List.append_nil _).symm
    · rw [List.append_nil]
      exact h.listener_mem

/-- A listener can replay what it has heard, and knows the validators there are. -/
def Follows (listener : String) (r : Roster) (reports : List Report) : Prop :=
  ∃ R m, Replica.hearAll .empty listener reports = some R ∧ r.set.Holds m ∧ R.Knows m

/-- A new listener knows of every validator, if nothing has been reported to it before. -/
theorem follows_register (hholds : ∃ m, r.set.Holds m)
    (hnone : ∀ report ∈ reports, report.listener ≠ listener) :
    (r.register listener).roster.Follows listener (reports ++ (r.register listener).reports) := by
  obtain ⟨m, hm⟩ := hholds
  obtain ⟨R, hR, hknows⟩ := Replica.hearAll_register hm listener
  refine ⟨R, m, ?_, hm, hknows⟩
  rw [Replica.hearAll_append, Replica.hearAll_eq_self hnone]
  exact hR

/-- A listener that follows a roster can follow every call on it. -/
theorem Follows.turn (h : r.Follows listener reports) (hcount : r.listeners.count listener = 1)
    (hother : c ≠ .register listener) (hturn : r.Turn c r' new) :
    r'.Follows listener (reports ++ new) := by
  obtain ⟨R, m, hR, hm, hknows⟩ := h
  have hall : ∀ later, Replica.hearAll .empty listener (reports ++ later) =
      R.hearAll listener later := by
    intro later
    rw [Replica.hearAll_append, hR]
    rfl
  cases hturn with
  | @changed change update hok =>
    obtain ⟨R', m', hR', hm', hknows'⟩ := hknows.follow hm hok
    exact ⟨R', m', by rw [hall, Replica.hearAll_reports hcount, hR'], hm', hknows'⟩
  | registered name =>
    have hname : name ≠ listener := fun heq => hother (congrArg ScopeCall.register heq)
    refine ⟨R, m, ?_, hm, hknows⟩
    rw [hall, Replica.hearAll_eq_self]
    intro report hreport
    obtain ⟨v, -, rfl⟩ := List.mem_map.mp hreport
    exact hname
  | kept => exact ⟨R, m, by rw [List.append_nil, hR], hm, hknows⟩

end Roster

namespace Scope

variable {s : Scope} {listener : String} {t : Throttler}

/-- Every call on a scope takes its roster one of these turns. -/
theorem call_turn (s : Scope) (c : ScopeCall) :
    s.roster.Turn c (s.call c).scope.roster (s.call c).reports := by
  cases c with
  | change change =>
    rw [call, Roster.apply]
    cases hok : s.roster.set.apply change with
    | error e => exact .kept rfl
    | ok update => exact .changed hok
  | register listener => exact .registered listener
  | acquire | tryAcquire | acquireUnlessCancelled | acquirePermit | dropPermit | release =>
    exact .kept rfl

theorem run_concat (s : Scope) (calls : List ScopeCall) (c : ScopeCall) :
    (s.run (calls ++ [c])).1 = ((s.run calls).1.call c).scope ∧
      (s.run (calls ++ [c])).2.1 = (s.run calls).2.1 ++ ((s.run calls).1.call c).reports := by
  rw [run, List.foldl_concat]
  exact ⟨rfl, rfl⟩

/-- From an empty roster on, those who registered are told and no one else. -/
theorem told_run (t : Throttler) (calls : List ScopeCall) :
    (run ⟨.empty, t⟩ calls).1.roster.Told calls (run ⟨.empty, t⟩ calls).2.1 := by
  induction calls using List.reverseRecOn with
  | nil => exact Roster.told_empty
  | append_singleton calls c ih =>
    obtain ⟨hscope, hreports⟩ := run_concat ⟨.empty, t⟩ calls c
    rw [hscope, hreports]
    exact ih.turn (call_turn _ c)

theorem count_registered {before after : List ScopeCall}
    (hfresh : .register listener ∉ before ++ after) :
    ((before ++ .register listener :: after).filterMap ScopeCall.registered?).count listener = 1 := by
  rw [List.mem_append, not_or] at hfresh
  have hbefore := List.count_eq_zero.mpr (mem_registered_iff.not.mpr hfresh.1)
  have hafter := List.count_eq_zero.mpr (mem_registered_iff.not.mpr hfresh.2)
  have hone : ScopeCall.registered? (.register listener) = some listener := rfl
  rw [List.filterMap_append, List.filterMap_cons_some hone, List.count_append,
    List.count_cons_self, hbefore, hafter]

theorem follows_run (t : Throttler) {before after : List ScopeCall}
    (hfresh : .register listener ∉ before ++ after) :
    let calls := before ++ .register listener :: after
    (run ⟨.empty, t⟩ calls).1.roster.Follows listener (run ⟨.empty, t⟩ calls).2.1 := by
  induction after using List.reverseRecOn with
  | nil =>
    obtain ⟨hscope, hreports⟩ := run_concat ⟨.empty, t⟩ before (.register listener)
    have htold := told_run t before
    rw [List.append_nil] at hfresh
    simp only [hscope, hreports]
    refine Roster.follows_register htold.holds fun report hreport heq => hfresh ?_
    have hmem := htold.listener_mem report hreport
    rw [heq, htold.listeners_eq] at hmem
    exact mem_registered_iff.mp hmem
  | append_singleton after c ih =>
    rw [← List.append_assoc, List.mem_append, not_or, List.mem_singleton] at hfresh
    have hsplit : before ++ .register listener :: (after ++ [c]) =
        (before ++ .register listener :: after) ++ [c] := by
      rw [List.append_assoc, List.cons_append]
    obtain ⟨hscope, hreports⟩ :=
      run_concat ⟨.empty, t⟩ (before ++ .register listener :: after) c
    have hcount := count_registered hfresh.1
    rw [← (told_run t _).listeners_eq] at hcount
    simp only [hsplit, hscope, hreports]
    exact (ih hfresh.1).turn hcount (Ne.symm hfresh.2) (call_turn _ c)

/-- What one request has reported: nothing where it is refused or changes a weight by nothing, else
its event, once to each listener. -/
theorem reports_change (s : Scope) (change : StakeChange) :
    (∀ e, s.roster.set.apply change = .error e → (s.call (.change change)).reports = []) ∧
      (change.isIdle → (s.call (.change change)).reports = []) ∧
      ∀ update, s.roster.set.apply change = .ok update → ¬change.isIdle →
        ∃ event, change.event (s.roster.set.weight change.node) = some event ∧
          (s.call (.change change)).reports = s.roster.listeners.map (⟨·, event⟩) := by
  rw [call, Roster.apply]
  cases happly : s.roster.set.apply change with
  | error e => exact ⟨fun _ _ => rfl, fun _ => rfl, nofun⟩
  | ok update =>
    have hevent := ValidatorSet.event_eq happly
    refine ⟨nofun, fun hidle => ?_, fun _ _ hbusy => ?_⟩
    · rw [StakeChange.event_eq_none_iff.mpr hidle] at hevent
      exact congrArg s.roster.reports hevent
    · obtain ⟨event, hsome⟩ :=
        Option.ne_none_iff_exists'.mp (StakeChange.event_eq_none_iff.not.mpr hbusy)
      rw [hsome] at hevent
      exact ⟨event, hsome, congrArg s.roster.reports hevent⟩

/-- **Listeners are faithful replicas.** Whatever calls are made on an empty scope, a listener that is
registered at one point among them can apply all that it hears, and then has exactly the nodes, keys
and weights of the set. Of the next request every listener that was registered hears once, also where
the weight that is set is the old one; no one hears of a request that is refused or idle. -/
theorem replica_of_listener (t : Throttler) {before after : List ScopeCall}
    (hfresh : .register listener ∉ before ++ after) :
    let calls := before ++ .register listener :: after
    let s := (run ⟨.empty, t⟩ calls).1
    (∃ replica, Replica.hearAll .empty listener (run ⟨.empty, t⟩ calls).2.1 = some replica ∧
      ∀ node, replica.get? node = (s.roster.set.get? node).map fun v => (v.key, v.weight)) ∧
    s.roster.listeners = calls.filterMap ScopeCall.registered? ∧
    ∀ change,
      (∀ e, s.roster.set.apply change = .error e → (s.call (.change change)).reports = []) ∧
      (change.isIdle → (s.call (.change change)).reports = []) ∧
      ∀ update, s.roster.set.apply change = .ok update → ¬change.isIdle →
        ∃ event, change.event (s.roster.set.weight change.node) = some event ∧
          (s.call (.change change)).reports = s.roster.listeners.map (⟨·, event⟩) := by
  intro calls s
  obtain ⟨replica, m, hreplay, hm, hknows⟩ := follows_run t hfresh
  refine ⟨⟨replica, hreplay, fun node => ?_⟩, (told_run t calls).listeners_eq, reports_change s⟩
  rw [hknows, hm.mirrors.get, Option.map_map]
  rfl

/-- Another listener is there first; one validator loses all its weight, the other gains some. -/
theorem replica_of_late_listener :
    let first : NodeId := .zero
    let second : NodeId := ⟨.ofNat 20 1⟩
    let before : List ScopeCall := [.register "early", .change (.add first none none 10)]
    let after : List ScopeCall :=
      [.change (.add second none none 20), .change (.removeWeight first 10),
        .change (.add second none none 1), .change (.addWeight second 5)]
    let reply := run ⟨.empty, Throttler.defaultLabel, .full ⟨8, 4, 2⟩⟩
      (before ++ .register "late" :: after)
    .register "late" ∉ before ++ after ∧
      ∃ replica, Replica.hearAll .empty "late" reply.2.1 = some replica ∧
        replica.get? first = none ∧ replica.get? second = some (none, 25) := by
  intro first second before after reply
  have hfresh : .register "late" ∉ before ++ after := by decide +kernel
  obtain ⟨⟨replica, hreplay, hget⟩, -, -⟩ :=
    replica_of_listener ⟨Throttler.defaultLabel, .full ⟨8, 4, 2⟩⟩ hfresh
  refine ⟨hfresh, replica, hreplay, ?_, ?_⟩
  · rw [hget]
    decide +kernel
  · rw [hget]
    decide +kernel

end Scope

end StakeGuard
