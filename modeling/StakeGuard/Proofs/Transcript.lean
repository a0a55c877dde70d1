import StakeGuard.Proofs.HistoryRefinement

/-!
# Transcripts

A snapshot oracle that is told of everything a registry does: of each chain as it is registered, and of
the validators of every active subnet at every advance, changed or not. The registry stores less, and
both recount one chronicle. Main statement: as long as nothing is deactivated, the two answer every
question alike (`Registry.oracle_transcribe`).
-/

namespace StakeGuard

theorem Timeline.record_empty {α : Type} (height : UInt64) (a : α) :
    (Timeline.empty.record height a) = .single height a := rfl

namespace SnapshotOracle

variable {o : SnapshotOracle} {order : List SubnetId} {subnet : SubnetId}

/-- The oracle after the validators of several subnets are recorded at one height. -/
def recordAll (o : SnapshotOracle) (height : UInt64) (snapshotOf : SubnetId → Snapshot)
    (order : List SubnetId) : SnapshotOracle :=
  order.foldl (fun o subnet => o.record height subnet (snapshotOf subnet)) o

theorem recordAll_cons (o : SnapshotOracle) (height : UInt64) (snapshotOf : SubnetId → Snapshot)
    (subnet : SubnetId) (rest : List SubnetId) :
    o.recordAll height snapshotOf (subnet :: rest) =
      (o.record height subnet (snapshotOf subnet)).recordAll height snapshotOf rest := rfl

theorem chains_recordAll (height : UInt64) (snapshotOf : SubnetId → Snapshot) :
    (o.recordAll height snapshotOf order).chains = o.chains := by
  induction order generalizing o with
  | nil => rfl
  | cons subnet rest ih => rw [recordAll_cons, ih]; rfl

theorem get?_history_record (height : UInt64) (recorded : SubnetId) (snapshot : Snapshot) :
    (o.record height recorded snapshot).history.get? subnet =
      if subnet = recorded then some (((o.history.get? recorded).getD .empty).record height snapshot)
      else o.history.get? subnet :=
  Table.get?_insert ..

/-- Each subnet that is listed once gets its own snapshot, in whatever order they come. -/
theorem get?_history_recordAll (height : UInt64) (snapshotOf : SubnetId → Snapshot)
    (hnodup : order.Nodup) :
    (o.recordAll height snapshotOf order).history.get? subnet =
      if subnet ∈ order then
        some (((o.history.get? subnet).getD .empty).record height (snapshotOf subnet))
      else o.history.get? subnet := by
  induction order generalizing o with
  | nil => rfl
  | cons first rest ih =>
    obtain ⟨hfresh, hrest⟩ := List.nodup_cons.mp hnodup
    rw [recordAll_cons, ih hrest, get?_history_record]
    by_cases heq : subnet = first
    · subst heq
      simp [hfresh]
    · simp [heq]

end SnapshotOracle

namespace Registry

variable {r : Registry} {c : Chronicle} {o : SnapshotOracle} {subnet : SubnetId}
  {order : List SubnetId}

/-- What a snapshot oracle is told of a call on a registry. An activation is told as a subnet without
validators from the height reached on, an advance as the validators of the active subnets, in the given
order, and then the height. -/
def tell (r : Registry) (order : List SubnetId) (o : SnapshotOracle) : RegistryCall → SnapshotOracle
  | .activate subnet => if (r.activate subnet).isOk then o.record r.height subnet [] else o
  | .registerChain chain subnet => o.registerChain chain subnet
  | .advance height =>
    if height ≤ r.height then o else (o.recordAll height r.live order).setHeight height
  | .deactivate _ | .onScope .. => o

/-- The snapshot oracle that is told of each of some calls. In which order it hears of the active
subnets of a registry may differ from advance to advance. -/
def transcribe (order : Registry → List SubnetId) (r : Registry) (o : SnapshotOracle) :
    List RegistryCall → SnapshotOracle
  | [] => o
  | call :: rest => transcribe order (r.step call).1 (r.tell (order r) o call) rest

/-- A snapshot oracle knows the chains of a registry, stands at its height and recounts its chronicle. -/
structure Transcribed (r : Registry) (c : Chronicle) (o : SnapshotOracle) : Prop where
  chains_eq : o.chains = r.chains
  height_eq : o.height = r.height
  recounts : Recounts o.history c r.height

namespace Transcribed

theorem make (config : ThrottleConfig) : Transcribed (.make config) (fun _ => none) .empty where
  chains_eq := rfl
  height_eq := rfl
  recounts := ⟨fun _ => rfl, nofun⟩

/-- An activation tells the oracle the empty list of the new subnet. -/
theorem activate (hc : Chronicled r c) (h : Transcribed r c o) (opened : SubnetId) :
    Transcribed (r.step (.activate opened)).1 (r.note c (.activate opened))
      (r.tell order o (.activate opened)) := by
  obtain ⟨e, he, hstep⟩ | ⟨scope, signals, hok, hinactive, -, hstep⟩ := r.step_activate_cases opened
  · have htell : r.tell order o (.activate opened) = o := by
      simp [tell, he, Except.isOk, Except.toBool]
    rwa [note_activate_of_error he, hstep, htell]
  · have hfresh : o.history.get? opened = none :=
      h.recounts.unknown (hc.account_eq_none_iff.mpr hinactive)
    have hhistory : ∀ subnet, (o.record r.height opened []).history.get? subnet =
        if subnet = opened then some (.single r.height []) else o.history.get? subnet := fun subnet => by
      rw [SnapshotOracle.get?_history_record, hfresh, Option.getD_none, Timeline.record_empty]
    have htell : r.tell order o (.activate opened) = o.record r.height opened [] := if_pos hok
    rw [hstep, htell]
    refine ⟨h.chains_eq, ?_, ⟨fun {subnet} hnone => ?_, fun {subnet a} ha => ?_⟩⟩
    · simp [SnapshotOracle.record, h.height_eq, install]
    · rw [note_activate_of_isOk hok] at hnone
      rw [hhistory]
      split at hnone
      · cases hnone
      · next hne => rw [if_neg hne, h.recounts.unknown hnone]
    · rw [note_activate_of_isOk hok] at ha
      rw [hhistory]
      split at ha
      · next heq =>
        cases ha
        exact ⟨_, if_pos heq, .single r.height⟩
      · next hne =>
        rw [if_neg hne]
        exact h.recounts.known ha

/-- An advance tells it the lists of all active subnets, in whatever order. -/
theorem advance (hc : Chronicled r c) (h : Transcribed r c o) (horder : order.Perm r.active.keys)
    (height : UInt64) :
    Transcribed (r.step (.advance height)).1 (r.note c (.advance height))
      (r.tell order o (.advance height)) := by
  by_cases hle : height ≤ r.height
  · have hnote : r.note c (.advance height) = c := by
      funext subnet
      rw [note, if_pos hle]
    rw [hnote]
    simpa [Registry.step, Registry.advance, tell, hle] using h
  · have hlt : r.height < height := UInt64.not_le.mp hle
    have hmem : ∀ subnet, subnet ∈ order ↔ (c subnet).isSome := fun subnet => by
      rw [horder.mem_iff, Table.mem_keys_iff, ← Option.isSome_iff_exists, hc.active_iff]
    have hhistory : ∀ subnet, (o.recordAll height r.live order).history.get? subnet =
        if subnet ∈ order then
          some (((o.history.get? subnet).getD .empty).record height (r.live subnet))
        else o.history.get? subnet := fun subnet =>
      SnapshotOracle.get?_history_recordAll height r.live (horder.nodup_iff.mpr r.active.keys_nodup)
    simp only [Registry.step, Registry.advance, tell, if_neg hle]
    refine ⟨?_, rfl, ⟨fun {subnet} hnone => ?_, fun {subnet a} ha => ?_⟩⟩
    · exact (SnapshotOracle.chains_recordAll height r.live).trans h.chains_eq
    · simp only [note, if_neg hle, Option.map_eq_none_iff] at hnone
      have hnot : subnet ∉ order := by simp [hmem, hnone]
      exact (hhistory subnet).trans (by rw [if_neg hnot, h.recounts.unknown hnone])
    · simp only [note, if_neg hle] at ha
      obtain ⟨a', ha', rfl⟩ := Option.map_eq_some_iff.mp ha
      obtain ⟨t, ht, htells⟩ := h.recounts.known ha'
      have hlisted : subnet ∈ order := (hmem subnet).mpr (Option.isSome_of_eq_some ha')
      refine ⟨t.record height (r.live subnet), ?_, ?_⟩
      · exact (hhistory subnet).trans (by rw [if_pos hlisted, ht, Option.getD_some])
      · exact htells.advance hlt (fun _ => Timeline.at?_record_of_below (htells.entries_lt hlt))
          fun e he => Timeline.le_of_mem_record (htells.entries_lt hlt) he

/-- An oracle that has been told of everything is told of one more call. -/
theorem step (hc : Chronicled r c) (h : Transcribed r c o) (horder : order.Perm r.active.keys)
    {call : RegistryCall} (hopen : ∀ closed, call ≠ .deactivate closed) :
    Transcribed (r.step call).1 (r.note c call) (r.tell order o call) := by
  cases call with
  | activate opened => exact h.activate hc opened
  | deactivate closed => exact absurd rfl (hopen closed)
  | registerChain chain target =>
    refine ⟨?_, h.height_eq, h.recounts⟩
    simp only [tell, SnapshotOracle.registerChain, h.chains_eq, Registry.step, Registry.registerChain]
  | advance height => exact h.advance hc horder height
  | onScope handle call =>
    rw [step_onScope]
    exact ⟨h.chains_eq, h.height_eq, h.recounts⟩

/-- After any calls without a deactivation the oracle has been told the chronicle. -/
theorem after {order : Registry → List SubnetId} (horder : ∀ r, (order r).Perm r.active.keys)
    (hc : Chronicled r c) (h : Transcribed r c o) {calls : List RegistryCall}
    (hopen : ∀ closed, .deactivate closed ∉ calls) :
    Transcribed (r.after calls) (r.chronicle c calls) (r.transcribe order o calls) := by
  induction calls generalizing r c o with
  | nil => exact h
  | cons call rest ih =>
    have hfirst : ∀ closed, call ≠ .deactivate closed := fun closed heq =>
      hopen closed (heq ▸ List.mem_cons_self)
    exact ih (hc.step call) (h.step hc (horder r) hfirst) fun closed hmem =>
      hopen closed (List.mem_cons_of_mem _ hmem)

/-- An oracle that has been told the chronicle of a registry answers as the registry. -/
theorem oracle_eq (hc : Chronicled r c) (h : Transcribed r c o) : o.oracle = r.oracle := by
  have hvalidators : o.oracle.validatorsAt = r.oracle.validatorsAt := by
    funext height subnet
    rw [hc.validatorsAt_eq]
    exact h.height_eq ▸ h.recounts.validatorsAt_eq height subnet
  simp only [SnapshotOracle.oracle, Registry.oracle] at hvalidators ⊢
  rw [hvalidators, h.chains_eq, h.height_eq]

end Transcribed

/-- **A transcript answers as the registry does.** As long as nothing is deactivated, a registry that
stores only what has changed and a snapshot oracle that is told of everything give the same height, the
same subnet of every chain and the same validators of every subnet at every height, and refuse the same
questions with the same errors, in whatever order the oracle hears of the active subnets. -/
theorem oracle_transcribe {order : Registry → List SubnetId}
    (horder : ∀ r, (order r).Perm r.active.keys) (config : ThrottleConfig)
    {calls : List RegistryCall} (hopen : ∀ closed, .deactivate closed ∉ calls) :
    ((make config).transcribe order .empty calls).oracle = ((make config).run calls).1.oracle := by
  rw [run_eq_after]
  exact (Transcribed.after horder (.make config) (.make config) hopen).oracle_eq
    (chronicled_after (.make config) calls)

/-- A subnet's validators change before the first and before the last of three advances, and a call
back to a lower height is passed over. -/
def recurringCalls : List RegistryCall :=
  [.activate primaryNetwork, .registerChain .zero primaryNetwork,
    .onScope 0 (.change (.add .zero none none 5)), .advance 3, .activate ⟨.ofNat 32 1⟩, .advance 7,
    .advance 5, .onScope 0 (.change (.setWeight .zero 6)), .advance 9]

/-- The registry stores three snapshots where the oracle has four, and both answer alike. -/
theorem oracle_transcribe_recurring :
    let r := ((make ⟨8, 4, 2⟩).run recurringCalls).1
    let told := (make ⟨8, 4, 2⟩).transcribe (·.active.keys.reverse) .empty recurringCalls
    (∀ r : Registry, r.active.keys.reverse.Perm r.active.keys) ∧
    (∀ closed, .deactivate closed ∉ recurringCalls) ∧ r.snapshotCount primaryNetwork = 3 ∧
    (told.history.get? primaryNetwork).map (·.size) = some 4 ∧ told.oracle = r.oracle ∧
    r.oracle.validatorsAt 8 primaryNetwork = .ok [⟨.zero, none, 5⟩] := by
  intro r told
  have horder : ∀ r : Registry, r.active.keys.reverse.Perm r.active.keys := fun r =>
    List.reverse_perm _
  have hopen : ∀ closed, .deactivate closed ∉ recurringCalls := by simp [recurringCalls]
  have hvalidators : r.oracle.validatorsAt 8 primaryNetwork = .ok [⟨.zero, none, 5⟩] := by
    change r.history.validatorsAt r.height 8 primaryNetwork = _
    exact History.validatorsAt_eq_ok_iff.mpr (by decide +kernel)
  exact ⟨horder, hopen, by decide +kernel, by decide +kernel, oracle_transcribe horder _ hopen,
    hvalidators⟩

end Registry

end StakeGuard
