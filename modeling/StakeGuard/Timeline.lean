import StakeGuard.Amount

/-!
# Timelines

Values recorded at heights. A question about a height is answered by the latest value recorded at or
below it. Main statements: recording at a height leaves the answers below it alone
(`at?_record_of_lt`) and gives the answers from it on, up to the next height recorded
(`at?_record_of_latest`).
-/

namespace StakeGuard

/-- Values by height, the latest first. -/
structure Timeline (α : Type) where
  entries : List (UInt64 × α)
  descending : entries.Pairwise fun later earlier => earlier.1 < later.1
deriving DecidableEq

namespace Timeline

variable {α : Type}

/-- The timeline on which nothing is recorded. -/
def empty : Timeline α := ⟨[], .nil⟩

instance : Inhabited (Timeline α) := ⟨empty⟩

/-- The timeline with one value. -/
def single (height : UInt64) (a : α) : Timeline α := ⟨[(height, a)], by simp⟩

/-- The number of heights at which a value is recorded. -/
def size (t : Timeline α) : Nat := t.entries.length

/-- The latest value recorded at or below a height. -/
def at? (t : Timeline α) (height : UInt64) : Option α :=
  (t.entries.find? (·.1 ≤ height)).map (·.2)

/-- The list of entries with a value at a height, in place of the one it may have had. -/
def place (height : UInt64) (a : α) : List (UInt64 × α) → List (UInt64 × α)
  | [] => [(height, a)]
  | e :: rest =>
    if height < e.1 then e :: place height a rest
    else if height = e.1 then (height, a) :: rest
    else (height, a) :: e :: rest

/-- Placing a value adds no entry but its own. -/
theorem mem_place {height : UInt64} {a : α} {entries : List (UInt64 × α)} {e : UInt64 × α}
    (h : e ∈ place height a entries) : e = (height, a) ∨ e ∈ entries := by
  induction entries with
  | nil => exact Or.inl (by simpa [place] using h)
  | cons e' rest ih =>
    unfold place at h
    split at h
    · rcases List.mem_cons.mp h with rfl | h
      · exact Or.inr List.mem_cons_self
      · exact (ih h).imp_right (List.mem_cons_of_mem _)
    · split at h
      · exact (List.mem_cons.mp h).imp_right (List.mem_cons_of_mem _)
      · exact List.mem_cons.mp h

/-- Records a value at a height, in place of the one it may have had. -/
def record (t : Timeline α) (height : UInt64) (a : α) : Timeline α where
  entries := place height a t.entries
  descending := by
    obtain ⟨entries, descending⟩ := t
    show (place height a entries).Pairwise _
    induction entries with
    | nil => simp [place]
    | cons e rest ih =>
      obtain ⟨hhead, hrest⟩ := List.pairwise_cons.mp descending
      unfold place
      -- the entry goes behind a later one, in place of one at its height, or in front
      split
      · next hlt =>
        refine List.pairwise_cons.mpr ⟨fun x hx => ?_, ih hrest⟩
        rcases mem_place hx with rfl | hx
        · exact hlt
        · exact hhead x hx
      · split
        · next heq =>
          exact List.pairwise_cons.mpr ⟨fun x hx => by rw [heq]; exact hhead x hx, hrest⟩
        · next hlt hne =>
          have hgt : e.1 < height := by
            have h₁ : ¬ height.toNat < e.1.toNat := fun h => hlt (UInt64.lt_iff_toNat_lt.mpr h)
            have h₂ : height.toNat ≠ e.1.toNat := fun h => hne (UInt64.toNat_inj.mp h)
            exact UInt64.lt_iff_toNat_lt.mpr (by omega)
          refine List.pairwise_cons.mpr ⟨fun x hx => ?_, descending⟩
          rcases List.mem_cons.mp hx with rfl | hx
          · exact hgt
          · exact UInt64.lt_trans (hhead x hx) hgt

@[simp] theorem at?_empty (height : UInt64) : (empty : Timeline α).at? height = none := rfl

/-- What is recorded above a height does not show at it. -/
theorem find?_place_of_lt {height k : UInt64} (a : α) (h : k < height)
    (entries : List (UInt64 × α)) :
    (place height a entries).find? (·.1 ≤ k) = entries.find? (·.1 ≤ k) := by
  have hn : ¬ height ≤ k := UInt64.not_le.mpr h
  induction entries with
  | nil => simp [place, hn]
  | cons e rest ih =>
    unfold place
    split
    · simp only [List.find?_cons, ih]
    · split
      · next heq =>
        have he : ¬ e.1 ≤ k := heq ▸ hn
        simp [hn, he]
      · simp [List.find?_cons, hn]

/-- A recorded value shows at every height from its own on that is below the next one recorded. -/
theorem find?_place_of_latest {height k : UInt64} (a : α) (h : height ≤ k)
    {entries : List (UInt64 × α)} (hlater : ∀ e ∈ entries, height < e.1 → k < e.1) :
    (place height a entries).find? (·.1 ≤ k) = some (height, a) := by
  induction entries with
  | nil => simp [place, h]
  | cons e rest ih =>
    unfold place
    split
    · next hlt =>
      have he : ¬ e.1 ≤ k := UInt64.not_le.mpr (hlater e List.mem_cons_self hlt)
      have hrest := ih fun x hx => hlater x (List.mem_cons_of_mem _ hx)
      simp [he, hrest]
    · split <;> simp [h]

/-- From the latest height recorded on, the latest value shows. -/
theorem at?_eq_head? {t : Timeline α} {height : UInt64} (h : ∀ e ∈ t.entries, e.1 ≤ height) :
    t.at? height = t.entries.head?.map (·.2) := by
  rw [at?]
  cases hentries : t.entries with
  | nil => rfl
  | cons e rest =>
    have he : e.1 ≤ height := h e (hentries ▸ List.mem_cons_self)
    rw [List.find?_cons_of_pos (by simpa using he), List.head?_cons]

/-- What is recorded at a height leaves the answers below it alone. -/
theorem at?_record_of_lt {t : Timeline α} {height k : UInt64} (a : α) (h : k < height) :
    (t.record height a).at? k = t.at? k := by
  rw [at?, at?, record, find?_place_of_lt a h]

/-- What is recorded at a height is the answer from there on, up to the next height recorded. -/
theorem at?_record_of_latest {t : Timeline α} {height k : UInt64} (a : α) (h : height ≤ k)
    (hlater : ∀ e ∈ t.entries, height < e.1 → k < e.1) :
    (t.record height a).at? k = some a := by
  rw [at?, record, find?_place_of_latest a h hlater, Option.map_some]

end Timeline

end StakeGuard
