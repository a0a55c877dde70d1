/-!
# Tables

Finite maps as lists of entries with distinct keys. Main statements: a look-up after `insert`,
`erase` or `retain` is determined by the look-up before it (`get?_insert`, `get?_erase`,
`get?_retain`), and a table holds an entry exactly when looking up its key finds its value
(`mem_entries_iff`).
-/

namespace StakeGuard

/-- A finite map, most recently written entry first. -/
structure Table (K V : Type) where
  entries : List (K × V)
  nodup_keys : (entries.map (·.1)).Nodup
deriving DecidableEq

namespace Table

variable {K V : Type}

/-- The table without entries. -/
def empty : Table K V := ⟨[], List.nodup_nil⟩

instance : Inhabited (Table K V) := ⟨empty⟩

/-- The keys, most recently written first. -/
def keys (t : Table K V) : List K := t.entries.map (·.1)

/-- The number of keys with a value. -/
def size (t : Table K V) : Nat := t.entries.length

/-- The entries that satisfy a predicate. -/
def retain (p : K → V → Bool) (t : Table K V) : Table K V where
  entries := t.entries.filter fun e => p e.1 e.2
  nodup_keys := t.nodup_keys.sublist (List.filter_sublist.map _)

theorem keys_nodup (t : Table K V) : t.keys.Nodup := t.nodup_keys

variable [DecidableEq K]

/-- The value of a key, if it has one. -/
def get? (t : Table K V) (k : K) : Option V := (t.entries.find? (·.1 = k)).map (·.2)

/-- Whether a key has a value. -/
def contains (t : Table K V) (k : K) : Bool := (t.get? k).isSome

/-- The table without a key. -/
def erase (t : Table K V) (k : K) : Table K V := t.retain fun k' _ => k' ≠ k

/-- The table with a value for a key, in place of the value it may have had. -/
def insert (t : Table K V) (k : K) (v : V) : Table K V where
  entries := (k, v) :: (t.erase k).entries
  nodup_keys := by
    refine List.nodup_cons.mpr ⟨?_, (t.erase k).nodup_keys⟩
    simp [erase, retain]

/-- An entry is in the table exactly when its value is that of its key, because keys are distinct. -/
theorem mem_entries_iff {t : Table K V} {k : K} {v : V} :
    (k, v) ∈ t.entries ↔ t.get? k = some v := by
  obtain ⟨entries, nodup_keys⟩ := t
  simp only [get?]
  induction entries with
  | nil => simp
  | cons e rest ih =>
    obtain ⟨k', v'⟩ := e
    simp only [List.map_cons, List.nodup_cons] at nodup_keys
    by_cases h : k' = k
    · subst h
      have hn : (k', v) ∉ rest := fun hm => nodup_keys.1 (List.mem_map.mpr ⟨_, hm, rfl⟩)
      simp [hn, eq_comm]
    · have hne : (k, v) ≠ (k', v') := fun he => h (congrArg Prod.fst he).symm
      simp [h, hne, ih nodup_keys.2]

theorem get?_eq_none_iff {t : Table K V} {k : K} : t.get? k = none ↔ k ∉ t.keys := by
  rw [Option.eq_none_iff_forall_ne_some, keys, List.mem_map]
  simp only [ne_eq, ← mem_entries_iff]
  constructor
  · rintro h ⟨⟨k', v⟩, hm, rfl⟩
    exact h v hm
  · intro h v hm
    exact h ⟨(k, v), hm, rfl⟩

theorem mem_keys_iff {t : Table K V} {k : K} : k ∈ t.keys ↔ ∃ v, t.get? k = some v := by
  rw [← Option.ne_none_iff_exists', ne_eq, get?_eq_none_iff, Decidable.not_not]

@[simp] theorem get?_empty (k : K) : (empty : Table K V).get? k = none := rfl

/-- Looking up what is retained is looking up first and then asking the predicate. -/
theorem get?_retain (p : K → V → Bool) (t : Table K V) (k : K) :
    (t.retain p).get? k = (t.get? k).filter (p k) := by
  apply Option.ext
  intro v
  rw [← mem_entries_iff, retain, List.mem_filter, mem_entries_iff, Option.filter_eq_some_iff]

/-- Erasing takes the value of one key and leaves all others. -/
theorem get?_erase (t : Table K V) (k k' : K) :
    (t.erase k).get? k' = if k' = k then none else t.get? k' := by
  rw [erase, get?_retain]
  by_cases h : k' = k
  · simp [h]
  · cases t.get? k' <;> simp [h]

/-- Inserting sets the value of one key and leaves all others. -/
theorem get?_insert (t : Table K V) (k k' : K) (v : V) :
    (t.insert k v).get? k' = if k' = k then some v else t.get? k' := by
  by_cases h : k' = k
  · subst h; simp [insert, get?]
  · have he : (t.erase k).get? k' = t.get? k' := by rw [get?_erase, if_neg h]
    rw [if_neg h, ← he]
    simp [insert, get?, Ne.symm h]

theorem contains_iff {t : Table K V} {k : K} : t.contains k = true ↔ ∃ v, t.get? k = some v :=
  Option.isSome_iff_exists

theorem contains_eq_false_iff {t : Table K V} {k : K} : t.contains k = false ↔ t.get? k = none := by
  simp [contains]

theorem entries_insert (t : Table K V) (k : K) (v : V) :
    (t.insert k v).entries = (k, v) :: (t.erase k).entries := rfl

/-- The entries without a key are all of them where it has no value. -/
theorem entries_erase_of_none {t : Table K V} {k : K} (h : t.get? k = none) :
    (t.erase k).entries = t.entries := by
  refine List.filter_eq_self.mpr fun e he => ?_
  have hk : e.1 ∈ t.keys := List.mem_map.mpr ⟨e, he, rfl⟩
  have hne : e.1 ≠ k := fun heq => get?_eq_none_iff.mp h (heq ▸ hk)
  simpa using hne

/-- The entries are that of a key and those without it. -/
theorem entries_perm_cons_erase {t : Table K V} {k : K} {v : V} (h : t.get? k = some v) :
    t.entries.Perm ((k, v) :: (t.erase k).entries) := by
  obtain ⟨before, after, hsplit⟩ := List.append_of_mem (mem_entries_iff.mpr h)
  have hnodup := t.nodup_keys
  rw [hsplit, List.map_append, List.map_cons] at hnodup
  have hcons := (List.perm_middle.nodup_iff).mp hnodup
  obtain ⟨hk, -⟩ := List.nodup_cons.mp hcons
  have hother : ∀ e ∈ before ++ after, decide (e.1 ≠ k) = true := by
    intro e he
    have hmem : e.1 ∈ before.map (·.1) ++ after.map (·.1) := by
      rw [← List.map_append]
      exact List.mem_map.mpr ⟨e, he, rfl⟩
    exact decide_eq_true fun heq => hk (heq ▸ hmem)
  have herase : (t.erase k).entries = before ++ after := by
    rw [← List.filter_eq_self.mpr hother]
    simp [erase, retain, hsplit]
  rw [herase, hsplit]
  exact List.perm_middle

end Table

end StakeGuard
