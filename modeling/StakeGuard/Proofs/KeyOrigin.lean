import StakeGuard.Proofs.Agreement
import StakeGuard.Proofs.NotedLists

/-!
# Where the keys of a list come from

A key gets into a validator set by a request that its owner join, and changes of weight leave it where
it is. So the keys of every list that a registry notes are among those that the calls register
(`Registry.listsHave_registered`).
-/

namespace StakeGuard

variable {P : PublicKey → Prop} {requests : List StakeChange}

/-- A request brings a key into a validator set only if it is among some. -/
def StakeChange.KeysIn (P : PublicKey → Prop) (request : StakeChange) : Prop :=
  ∀ node key tx weight, request = .add node (some key) tx weight → P key

namespace StakeMap

/-- Every key in a stake map satisfies a predicate. -/
def KeysIn (P : PublicKey → Prop) (m : StakeMap) : Prop :=
  ∀ node member, m.get? node = some member → ∀ key, member.key = some key → P key

variable {m m' : StakeMap} {node : NodeId} {member : Member}

theorem KeysIn.empty : KeysIn P .empty := nofun

theorem KeysIn.insert (h : m.KeysIn P) (hkey : ∀ key, member.key = some key → P key) :
    KeysIn P (m.insert node member) := by
  intro other found hfound
  rw [Table.get?_insert] at hfound
  split at hfound
  · cases hfound
    exact hkey
  · exact h other found hfound

/-- A member with another weight keeps its key. -/
theorem KeysIn.reweigh (h : m.KeysIn P) (hm : m.get? node = some member) (weight : UInt64) :
    KeysIn P (m.insert node { member with weight }) :=
  h.insert (h node member hm)

theorem KeysIn.erase (h : m.KeysIn P) (node : NodeId) : KeysIn P (m.erase node) := by
  intro other found hfound
  rw [Table.get?_erase] at hfound
  split at hfound
  · cases hfound
  · exact h other found hfound

/-- A request brings in no key but its own. -/
theorem KeysIn.apply (h : m.KeysIn P) {request : StakeChange} (hrequest : request.KeysIn P)
    {v : Option Validator} (hm : m.apply request = .ok (m', v)) : m'.KeysIn P := by
  cases request with
  | add node key tx weight =>
    obtain ⟨_, hadd, heq⟩ := Outcome.map_eq_ok_iff.mp hm
    cases heq
    obtain ⟨-, rfl⟩ := add_eq_ok hadd
    refine h.insert fun k hk => hrequest node k tx weight ?_
    rw [← hk]
  | remove node =>
    obtain ⟨⟨_, _⟩, hremove, heq⟩ := Outcome.map_eq_ok_iff.mp hm
    cases heq
    obtain ⟨_, -, rfl⟩ := remove_eq_ok hremove
    exact h.erase node
  | setWeight node weight =>
    obtain ⟨_, hset, heq⟩ := Outcome.map_eq_ok_iff.mp hm
    cases heq
    obtain ⟨member, hmember, rfl⟩ := setWeight_eq_ok hset
    exact h.reweigh hmember weight
  | addWeight node delta =>
    obtain ⟨_, hadd, heq⟩ := Outcome.map_eq_ok_iff.mp hm
    cases heq
    obtain ⟨member, hmember, rfl⟩ := addWeight_eq_ok hadd
    split
    · exact h
    · exact h.reweigh hmember _
  | removeWeight node delta =>
    obtain ⟨_, hremove, heq⟩ := Outcome.map_eq_ok_iff.mp hm
    cases heq
    obtain ⟨member, hmember, rfl⟩ := removeWeight_eq_ok hremove
    split
    · exact h
    · split
      · exact h.erase node
      · exact h.reweigh hmember _

theorem KeysIn.step (h : m.KeysIn P) {request : StakeChange} (hrequest : request.KeysIn P) :
    KeysIn P (m.step request) := by
  unfold StakeMap.step
  split
  · exact h
  · next hm => exact h.apply hrequest hm

/-- Requests bring in no keys but their own. -/
theorem run_keysIn (h : ∀ request ∈ requests, request.KeysIn P) : KeysIn P (run requests) :=
  List.foldlRecOn requests step .empty fun _ hm request hmem => hm.step (h request hmem)

end StakeMap

namespace ValidatorSet

/-- The set is what some requests make of the empty one, which bring in keys among some only. -/
def BuiltOf (P : PublicKey → Prop) (s : ValidatorSet) : Prop :=
  ∃ requests : List StakeChange, (∀ request ∈ requests, request.KeysIn P) ∧ s = empty.run requests

theorem builtOf_empty : BuiltOf P empty := ⟨[], nofun, rfl⟩

variable {s : ValidatorSet}

theorem BuiltOf.step (h : s.BuiltOf P) {request : StakeChange} (hrequest : request.KeysIn P) :
    (s.step request).BuiltOf P := by
  obtain ⟨requests, hkeys, rfl⟩ := h
  refine ⟨requests ++ [request], ?_, ?_⟩
  · exact List.forall_mem_append.mpr ⟨hkeys, List.forall_mem_singleton.mpr hrequest⟩
  · rw [run, run, List.foldl_append]
    rfl

/-- The keys of a set that is built of requests are among theirs. -/
theorem BuiltOf.key (h : s.BuiltOf P) {v : Validator} (hv : v ∈ s.list) {key : PublicKey}
    (hkey : v.key = some key) : P key := by
  obtain ⟨requests, hkeys, rfl⟩ := h
  obtain ⟨member, hmember, heq⟩ := ((mirrors_run requests).mem_list v).mp hv
  refine StakeMap.run_keysIn hkeys v.node member hmember key ?_
  rw [← hkey, heq]
  rfl

/-- A set that is built of requests has a canonical set. -/
theorem BuiltOf.exists_canonical (h : s.BuiltOf P) :
    ∃ set, CanonicalSet.ofSnapshot s.list = .ok set := by
  obtain ⟨requests, -, rfl⟩ := h
  obtain ⟨set, hset, -⟩ := (Holds.run requests).consistent.exists_canonical
  exact ⟨set, hset⟩

end ValidatorSet

/-- Some call requests that a validator join with the key. -/
def RegistryCall.Registers (calls : List RegistryCall) (key : PublicKey) : Prop :=
  ∃ handle node tx weight, .onScope handle (.change (.add node (some key) tx weight)) ∈ calls

/-- The keys of every list that a registry notes are registered in one of the calls. -/
theorem Registry.listsHave_registered (config : ThrottleConfig) (calls : List RegistryCall) :
    ListsHave (ValidatorSet.BuiltOf (RegistryCall.Registers calls))
      ((Registry.make config).chronicle (fun _ => none) calls) := by
  have hsets : SetsHave (ValidatorSet.BuiltOf (RegistryCall.Registers calls)) (.make config) :=
    fun o ho => by cases ho
  have hlists : ListsHave (ValidatorSet.BuiltOf (RegistryCall.Registers calls)) fun _ => none :=
    fun _ _ ha => by cases ha
  refine listsHave_chronicle ValidatorSet.builtOf_empty hsets hlists fun call hcall => ?_
  rintro handle request rfl s hs
  refine hs.step fun node key tx weight heq => ⟨handle, node, tx, weight, ?_⟩
  rwa [← heq]

end StakeGuard
