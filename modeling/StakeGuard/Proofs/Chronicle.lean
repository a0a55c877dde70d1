import StakeGuard.Proofs.RegistryStep

/-!
# Chronicles

What a registry has been through: for every active subnet the height at which it was activated and its
validators at every advance of the height since, whether or not they had changed. Main statement: the
sparse history that a registry keeps answers every question about a height as the chronicle of its run
does (`Registry.chronicled_after`).
-/

namespace StakeGuard

/-- The height at which a subnet was activated and its validators at each advance of the height since,
the latest first. -/
structure Account where
  since : UInt64
  advances : List (UInt64 × Snapshot)

/-- The accounts of the active subnets. -/
abbrev Chronicle := SubnetId → Option Account

namespace Account

/-- The validators at the last advance to a height or below it. -/
def lastAdvance? (a : Account) (height : UInt64) : Option Snapshot :=
  (a.advances.find? (·.1 ≤ height)).map (·.2)

/-- The validators at a height: none before the first advance, and no answer before activation. -/
def at? (a : Account) (height : UInt64) : Option Snapshot :=
  if height < a.since then none else some ((a.lastAdvance? height).getD [])

theorem lastAdvance?_of_mem {a : Account} {height : UInt64} {snapshot : Snapshot} {v : Validator}
    (h : a.at? height = some snapshot) (hv : v ∈ snapshot) :
    a.lastAdvance? height = some snapshot := by
  rw [at?] at h
  split at h
  · cases h
  · cases hlast : a.lastAdvance? height with
    | none =>
      rw [hlast] at h
      cases h
      cases hv
    | some found =>
      rw [hlast] at h
      exact h

end Account

namespace Timeline

variable {α : Type} [DecidableEq α] {t : Timeline α} {height k : UInt64} {a : α}

/-- The timeline with a value from a height on. -/
def keep (t : Timeline α) (height : UInt64) (a : α) : Timeline α :=
  if t.at? height = some a then t else t.record height a

theorem le_of_mem_record {α : Type} {t : Timeline α} {height : UInt64} {a : α}
    (h : ∀ e ∈ t.entries, e.1 < height) {e : UInt64 × α} (he : e ∈ (t.record height a).entries) :
    e.1 ≤ height := by
  rcases mem_place he with rfl | he
  · exact UInt64.le_refl _
  · exact UInt64.le_of_lt (h e he)

theorem le_of_mem_keep (h : ∀ e ∈ t.entries, e.1 < height) {e : UInt64 × α}
    (he : e ∈ (t.keep height a).entries) : e.1 ≤ height := by
  rw [keep] at he
  split at he
  · exact UInt64.le_of_lt (h e he)
  · exact le_of_mem_record h he

/-- A value recorded above all earlier heights shows from its own height on. -/
theorem at?_record_of_below {α : Type} {t : Timeline α} {height k : UInt64} {a : α}
    (h : ∀ e ∈ t.entries, e.1 < height) :
    (t.record height a).at? k = if height ≤ k then some a else t.at? k := by
  split
  · next hk =>
    refine at?_record_of_latest a hk fun e he hlater => ?_
    exact absurd (UInt64.lt_trans (h e he) hlater) (UInt64.lt_irrefl _)
  · next hk => exact at?_record_of_lt a (UInt64.not_le.mp hk)

/-- So does a value that is kept there, recorded anew or not. -/
theorem at?_keep (h : ∀ e ∈ t.entries, e.1 < height) :
    (t.keep height a).at? k = if height ≤ k then some a else t.at? k := by
  have hle : ∀ e ∈ t.entries, e.1 ≤ height := fun e he => UInt64.le_of_lt (h e he)
  rw [keep]
  split
  · next hsame =>
    split
    · next hk =>
      rw [← hsame, at?_eq_head? hle, at?_eq_head? fun e he => UInt64.le_trans (hle e he) hk]
    · rfl
  · exact at?_record_of_below h

end Timeline

namespace Registry

variable {r : Registry} {c : Chronicle} {subnet other : SubnetId} {history : History}

/-! ## What an advance does to the history -/

theorem get?_recordSnapshot (height : UInt64) (snapshot : Snapshot) :
    (recordSnapshot height history subnet snapshot).get? other =
      if other = subnet then some (((history.get? subnet).getD .empty).keep height snapshot)
      else history.get? other := by
  simp only [recordSnapshot, Timeline.keep]
  split
  · next hsame =>
    split
    · next heq =>
      subst heq
      cases h : history.get? other with
      | none => rw [h] at hsame; cases hsame
      | some t => rfl
    · rfl
  · rw [Table.get?_insert]

theorem get?_foldl_recordSnapshot_of_not_mem (height : UInt64) (f : Nat → Snapshot)
    {entries : List (SubnetId × Nat)} (h : subnet ∉ entries.map (·.1)) :
    (entries.foldl (fun history e => recordSnapshot height history e.1 (f e.2)) history).get? subnet =
      history.get? subnet := by
  induction entries generalizing history with
  | nil => rfl
  | cons e rest ih =>
    rw [List.map_cons, List.mem_cons, not_or] at h
    rw [List.foldl_cons, ih h.2, get?_recordSnapshot, if_neg h.1]

/-- An advance keeps the list of every active subnet in its timeline, in whatever order the subnets
come. -/
theorem get?_foldl_recordSnapshot_of_mem (height : UInt64) (f : Nat → Snapshot)
    {entries : List (SubnetId × Nat)} (hnodup : (entries.map (·.1)).Nodup) {handle : Nat}
    (h : (subnet, handle) ∈ entries) :
    (entries.foldl (fun history e => recordSnapshot height history e.1 (f e.2)) history).get? subnet =
      some (((history.get? subnet).getD .empty).keep height (f handle)) := by
  induction entries generalizing history with
  | nil => cases h
  | cons e rest ih =>
    obtain ⟨hfresh, hrest⟩ := List.nodup_cons.mp hnodup
    rw [List.foldl_cons]
    rcases List.mem_cons.mp h with rfl | hmem
    · rw [get?_foldl_recordSnapshot_of_not_mem height f hfresh, get?_recordSnapshot, if_pos rfl]
    · have hne : subnet ≠ e.1 := by
        rintro rfl
        exact hfresh (List.mem_map.mpr ⟨_, hmem, rfl⟩)
      rw [ih hrest hmem, get?_recordSnapshot, if_neg hne]

/-! ## The chronicle of a run -/

/-- The validators of the active scope of a subnet. -/
def live (r : Registry) (subnet : SubnetId) : Snapshot :=
  match r.active.get? subnet with
  | none => []
  | some handle => r.listOf handle

/-- The chronicle after a call. An activation opens an account, a deactivation closes it, and a call
that raises the height adds the validators of every active subnet to its account. -/
def note (r : Registry) (c : Chronicle) (call : RegistryCall) : Chronicle := fun subnet =>
  match call with
  | .activate opened =>
    if opened = subnet ∧ (r.activate opened).isOk then some ⟨r.height, []⟩ else c subnet
  | .deactivate closed => if closed = subnet then none else c subnet
  | .advance height =>
    if height ≤ r.height then c subnet
    else (c subnet).map fun a => { a with advances := (height, r.live subnet) :: a.advances }
  | .registerChain .. | .onScope .. => c subnet

/-- The registry after calls. -/
def after (r : Registry) (calls : List RegistryCall) : Registry :=
  calls.foldl (fun r call => (r.step call).1) r

/-- The chronicle of calls on a registry, from the one before them. -/
def chronicle (r : Registry) (c : Chronicle) : List RegistryCall → Chronicle
  | [] => c
  | call :: rest => chronicle (r.step call).1 (r.note c call) rest

theorem run_eq_after (r : Registry) (calls : List RegistryCall) :
    (r.run calls).1 = r.after calls := by
  rw [run]
  -- what has been reported so far is carried along, and never looked at
  generalize ([] : List Signal) = signals
  induction calls generalizing r signals with
  | nil => rfl
  | cons call rest ih => exact ih (r.step call).1 _

/-! ## The history tells the chronicle -/

/-- What is recorded of a subnet up to a height answers as its account does. -/
structure Tells (t : Timeline Snapshot) (a : Account) (height : UInt64) : Prop where
  at?_eq : ∀ k, t.at? k = a.at? k
  entries_le : ∀ e ∈ t.entries, e.1 ≤ height
  since_le : a.since ≤ height

/-- The timeline of a new subnet tells an account without advances. -/
theorem Tells.single (height : UInt64) : Tells (.single height []) ⟨height, []⟩ height where
  at?_eq k := by
    by_cases h : height ≤ k
    · simp [Timeline.at?, Timeline.single, Account.at?, Account.lastAdvance?, h,
        UInt64.not_lt.mpr h]
    · simp [Timeline.at?, Timeline.single, Account.at?, h, UInt64.not_le.mp h]
  entries_le e he := by
    cases List.mem_singleton.mp he
    exact UInt64.le_refl _
  since_le := UInt64.le_refl _

/-- A timeline to which a snapshot is added above all heights tells the account to which the advance
is added. -/
theorem Tells.advance {t t' : Timeline Snapshot} {a : Account} {height k : UInt64}
    {snapshot : Snapshot} (h : Tells t a height) (hk : height < k)
    (hat : ∀ m, t'.at? m = if k ≤ m then some snapshot else t.at? m)
    (hle : ∀ e ∈ t'.entries, e.1 ≤ k) :
    Tells t' { a with advances := (k, snapshot) :: a.advances } k where
  at?_eq m := by
    have hsince : a.since < k := UInt64.lt_of_le_of_lt h.since_le hk
    rw [hat, Account.at?, Account.lastAdvance?]
    split
    · next hm =>
      have hopen : ¬m < a.since := UInt64.not_lt.mpr (UInt64.le_trans (UInt64.le_of_lt hsince) hm)
      rw [if_neg hopen, List.find?_cons_of_pos (by simpa using hm)]
      rfl
    · next hm =>
      rw [List.find?_cons_of_neg (by simpa using hm), h.at?_eq]
      rfl
  entries_le := hle
  since_le := UInt64.le_of_lt (UInt64.lt_of_le_of_lt h.since_le hk)

theorem Tells.entries_lt {t : Timeline Snapshot} {a : Account} {height k : UInt64}
    (h : Tells t a height) (hk : height < k) : ∀ e ∈ t.entries, e.1 < k :=
  fun e he => UInt64.lt_of_le_of_lt (h.entries_le e he) hk

/-- Keeping a snapshot at a height above all others tells the account with one more advance. -/
theorem Tells.keep {t : Timeline Snapshot} {a : Account} {height k : UInt64}
    (h : Tells t a height) (hk : height < k) (snapshot : Snapshot) :
    Tells (t.keep k snapshot) { a with advances := (k, snapshot) :: a.advances } k :=
  h.advance hk (fun _ => Timeline.at?_keep (h.entries_lt hk)) fun _ he =>
    Timeline.le_of_mem_keep (h.entries_lt hk) he

/-- What is recorded of all subnets up to a height answers as their accounts do. -/
structure Recounts (history : History) (c : Chronicle) (height : UInt64) : Prop where
  unknown : ∀ {subnet}, c subnet = none → history.get? subnet = none
  known : ∀ {subnet a}, c subnet = some a →
    ∃ t, history.get? subnet = some t ∧ Tells t a height

/-- A registry keeps its chronicle: the active subnets have accounts, and the history tells them. -/
structure Chronicled (r : Registry) (c : Chronicle) : Prop where
  active_iff : ∀ {subnet}, (r.active.get? subnet).isSome ↔ (c subnet).isSome
  unknown : ∀ {subnet}, c subnet = none → r.history.get? subnet = none
  known : ∀ {subnet a}, c subnet = some a →
    ∃ t, r.history.get? subnet = some t ∧ Tells t a r.height

/-! ## What a call notes -/

theorem note_activate_of_error {e : RegistryError} (h : r.activate subnet = .error e) :
    r.note c (.activate subnet) = c := by
  funext other
  simp [note, h, Except.isOk, Except.toBool]

theorem note_activate_of_isOk (h : (r.activate subnet).isOk) :
    r.note c (.activate subnet) other = if other = subnet then some ⟨r.height, []⟩ else c other := by
  simp [note, h, eq_comm]

/-! ## What a call does to one subnet -/

/-- What becomes of a subnet in a call that takes a registry and its chronicle to others: it is left
alone, opened, closed, or noted at a new height. -/
inductive Turn (r r' : Registry) (c c' : Chronicle) (call : RegistryCall) (subnet : SubnetId) : Prop
  | rests (height_eq : r'.height = r.height)
    (active_eq : r'.active.get? subnet = r.active.get? subnet)
    (history_eq : r'.history.get? subnet = r.history.get? subnet)
    (account_eq : c' subnet = c subnet)
  | opens (height_eq : r'.height = r.height)
    (inactive : r.active.get? subnet = none)
    (active : (r'.active.get? subnet).isSome)
    (history_eq : r'.history.get? subnet = some (.single r.height []))
    (account_eq : c' subnet = some ⟨r.height, []⟩)
  | closes (call_eq : call = .deactivate subnet)
    (height_eq : r'.height = r.height)
    (inactive : r'.active.get? subnet = none)
    (history_eq : r'.history.get? subnet = none)
    (account_eq : c' subnet = none)
  | advances (height_lt : r.height < r'.height)
    (active_eq : r'.active.get? subnet = r.active.get? subnet)
    (history_eq : r'.history.get? subnet =
      (r.history.get? subnet).map (·.keep r'.height (r.live subnet)))
    (account_eq : c' subnet = (c subnet).map fun a =>
      { a with advances := (r'.height, r.live subnet) :: a.advances })

namespace Chronicled

theorem make (config : ThrottleConfig) : Chronicled (.make config) fun _ => none where
  active_iff := .rfl
  unknown _ := rfl
  known h := by cases h

theorem recounts (h : Chronicled r c) : Recounts r.history c r.height := ⟨h.unknown, h.known⟩

theorem account_eq_none_iff (h : Chronicled r c) :
    c subnet = none ↔ r.active.get? subnet = none := by
  rw [← Option.not_isSome_iff_eq_none, ← h.active_iff, Option.not_isSome_iff_eq_none]

/-- An activation opens the account of one subnet, or is refused and changes none. -/
theorem turn_activate (r : Registry) (c : Chronicle) (opened subnet : SubnetId) :
    Turn r (r.step (.activate opened)).1 c (r.note c (.activate opened)) (.activate opened)
      subnet := by
  obtain ⟨e, he, hstep⟩ | ⟨scope, signals, hok, hinactive, -, hstep⟩ := r.step_activate_cases opened
  · rw [note_activate_of_error he, hstep]
    exact .rests rfl rfl rfl rfl
  · rw [hstep]
    by_cases heq : subnet = opened
    · subst heq
      refine .opens rfl hinactive ?_ ?_ (by rw [note_activate_of_isOk hok, if_pos rfl])
      · simp [get?_active_install]
      · rw [get?_history_install, if_pos rfl]
    · refine .rests rfl ?_ ?_ (by rw [note_activate_of_isOk hok, if_neg heq])
      · rw [get?_active_install, if_neg heq]
      · rw [get?_history_install, if_neg heq]

/-- A deactivation closes the account of one subnet. -/
theorem turn_deactivate (h : Chronicled r c) (closed subnet : SubnetId) :
    Turn r (r.step (.deactivate closed)).1 c (r.note c (.deactivate closed)) (.deactivate closed)
      subnet := by
  have hnote : r.note c (.deactivate closed) subnet =
      if subnet = closed then none else c subnet := by
    simp [note, eq_comm]
  simp only [Registry.step, Registry.deactivate]
  cases hactive : r.active.get? closed with
  | none =>
    -- nothing is closed, and a subnet that is not active has no account to close
    refine .rests rfl rfl rfl ?_
    rw [hnote]
    split
    · next heq => rw [heq, h.account_eq_none_iff.mpr hactive]
    · rfl
  | some handle =>
    by_cases heq : subnet = closed
    · subst heq
      refine .closes rfl rfl ?_ ?_ (by rw [hnote, if_pos rfl])
      · rw [Table.get?_erase, if_pos rfl]
      · rw [Table.get?_erase, if_pos rfl]
    · refine .rests rfl ?_ ?_ (by rw [hnote, if_neg heq])
      · rw [Table.get?_erase, if_neg heq]
      · rw [Table.get?_erase, if_neg heq]

/-- An advance to a higher height adds to every open account, and any other changes none. -/
theorem turn_advance (h : Chronicled r c) (height : UInt64) (subnet : SubnetId) :
    Turn r (r.step (.advance height)).1 c (r.note c (.advance height)) (.advance height) subnet := by
  by_cases hle : height ≤ r.height
  · have hnote : r.note c (.advance height) subnet = c subnet := by rw [note, if_pos hle]
    simp only [Registry.step, Registry.advance, if_pos hle]
    exact .rests rfl rfl rfl hnote
  · have hnote : r.note c (.advance height) subnet =
        (c subnet).map fun a => { a with advances := (height, r.live subnet) :: a.advances } :=
      if_neg hle
    simp only [Registry.step, Registry.advance, if_neg hle]
    refine .advances (UInt64.not_le.mp hle) rfl ?_ hnote
    cases hactive : r.active.get? subnet with
    | none =>
      have hnone := h.unknown (h.account_eq_none_iff.mpr hactive)
      rw [get?_foldl_recordSnapshot_of_not_mem height r.listOf (Table.get?_eq_none_iff.mp hactive),
        hnone]
      rfl
    | some handle =>
      have haccount : (c subnet).isSome := h.active_iff.mp (Option.isSome_of_eq_some hactive)
      obtain ⟨a, ha⟩ := Option.isSome_iff_exists.mp haccount
      obtain ⟨t, ht, -⟩ := h.known ha
      have hlive : r.live subnet = r.listOf handle := by rw [live, hactive]
      rw [get?_foldl_recordSnapshot_of_mem height r.listOf r.active.nodup_keys
        (Table.mem_entries_iff.mpr hactive), ht, hlive]
      rfl

/-- Whatever is called, one of these becomes of every subnet. -/
theorem turn (h : Chronicled r c) (call : RegistryCall) (subnet : SubnetId) :
    Turn r (r.step call).1 c (r.note c call) call subnet := by
  cases call with
  | activate opened => exact turn_activate r c opened subnet
  | deactivate closed => exact h.turn_deactivate closed subnet
  | advance height => exact h.turn_advance height subnet
  | registerChain chain target => exact .rests rfl rfl rfl rfl
  | onScope handle call =>
    rw [step_onScope]
    exact .rests rfl rfl rfl rfl

/-- Every call takes a registry that keeps its chronicle to one that keeps it. -/
theorem step (h : Chronicled r c) (call : RegistryCall) :
    Chronicled (r.step call).1 (r.note c call) where
  active_iff {subnet} := by
    cases h.turn call subnet with
    | rests _ hactive _ haccount =>
      rw [hactive, haccount]
      exact h.active_iff
    | opens _ _ hactive _ haccount => simp [hactive, haccount]
    | closes _ _ hinactive _ haccount => simp [hinactive, haccount]
    | advances _ hactive _ haccount =>
      rw [hactive, haccount, Option.isSome_map]
      exact h.active_iff
  unknown {subnet} hnone := by
    cases h.turn call subnet with
    | rests _ _ hhistory haccount =>
      rw [haccount] at hnone
      rw [hhistory, h.unknown hnone]
    | opens _ _ _ _ haccount =>
      rw [haccount] at hnone
      cases hnone
    | closes _ _ _ hhistory _ => exact hhistory
    | advances _ _ hhistory haccount =>
      rw [haccount, Option.map_eq_none_iff] at hnone
      rw [hhistory, h.unknown hnone]
      rfl
  known {subnet a} ha := by
    cases h.turn call subnet with
    | rests hheight _ hhistory haccount =>
      rw [haccount] at ha
      rw [hheight, hhistory]
      exact h.known ha
    | opens hheight _ _ hhistory haccount =>
      rw [haccount] at ha
      cases ha
      rw [hheight]
      exact ⟨_, hhistory, .single r.height⟩
    | closes _ _ _ _ haccount =>
      rw [haccount] at ha
      cases ha
    | advances hlt _ hhistory haccount =>
      rw [haccount] at ha
      obtain ⟨a', ha', rfl⟩ := Option.map_eq_some_iff.mp ha
      obtain ⟨t, ht, htells⟩ := h.known ha'
      exact ⟨_, by rw [hhistory, ht]; rfl, htells.keep hlt _⟩

/-- An answer about a height is what an account says of it. -/
theorem account_of_validatorsAt (h : Chronicled r c) {height : UInt64} {snapshot : Snapshot}
    (hat : r.oracle.validatorsAt height subnet = .ok snapshot) :
    ∃ a, c subnet = some a ∧ height ≤ r.height ∧ a.at? height = some snapshot := by
  obtain ⟨hreached, hfound⟩ := History.validatorsAt_eq_ok_iff.mp hat
  obtain ⟨t, ht, hfound⟩ := Option.bind_eq_some_iff.mp hfound
  cases ha : c subnet with
  | none =>
    rw [h.unknown ha] at ht
    cases ht
  | some a =>
    obtain ⟨t', ht', htells⟩ := h.known ha
    obtain rfl : t' = t := Option.some.inj (ht'.symm.trans ht)
    exact ⟨a, rfl, hreached, htells.at?_eq height ▸ hfound⟩

end Chronicled

/-- The history of a registry answers every question about a height as the chronicle does. -/
theorem chronicled_after (h : Chronicled r c) (calls : List RegistryCall) :
    Chronicled (r.after calls) (r.chronicle c calls) := by
  induction calls generalizing r c with
  | nil => exact h
  | cons call rest ih => exact ih (h.step call)

/-- The history of a new registry answers as the chronicle of its run. -/
theorem chronicled_run (config : ThrottleConfig) (calls : List RegistryCall) :
    Chronicled ((Registry.make config).run calls).1
      ((Registry.make config).chronicle (fun _ => none) calls) := by
  rw [run_eq_after]
  exact chronicled_after (.make config) calls

end Registry

end StakeGuard
