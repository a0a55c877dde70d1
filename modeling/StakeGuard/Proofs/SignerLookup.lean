import StakeGuard.Proofs.CanonicalForm

/-!
# Looking signers up

A canonical set finds the position of a key by bisecting its keys, and the position of a node by
bisecting the nodes of one entry after the other. Main statements: in the canonical set of a snapshot both
look-ups find what the snapshot says of keys and nodes, and nothing else
(`CanonicalSet.locates_of_ofSnapshot`); a set that is made for participants finds every one of them that
the snapshot lists, as those without a key are refused before anything else is looked at
(`CanonicalSet.ofParticipants_requires_keys`).
-/

namespace StakeGuard

variable {snapshot : Snapshot} {node : NodeId} {key : PublicKey}

/-- A validator of the snapshot is the node, and has the key, or none. -/
def Snapshot.Lists (snapshot : Snapshot) (node : NodeId) (key : Option PublicKey) : Prop :=
  ∃ v ∈ snapshot, v.node = node ∧ v.key = key

theorem Snapshot.Lists.key_eq {key key' : Option PublicKey} (h : snapshot.Lists node key)
    (h' : snapshot.Lists node key') (hnodup : (snapshot.map (·.node)).Nodup) : key = key' := by
  obtain ⟨v, hv, rfl, rfl⟩ := h
  obtain ⟨w, hw, hnode, rfl⟩ := h'
  rw [List.inj_on_of_nodup_map hnodup hv hw hnode.symm]

/-- The first element that meets a condition is the one that does, where there are no two. -/
theorem findIdx?_eq_some_iff_of_unique {α : Type} {p : α → Bool} {xs : List α} {i : Nat}
    (hunique : ∀ {j k : Nat} {a b : α}, xs[j]? = some a → xs[k]? = some b → p a → p b → j = k) :
    xs.findIdx? p = some i ↔ ∃ a, xs[i]? = some a ∧ p a := by
  rw [List.findIdx?_eq_some_iff_getElem]
  constructor
  · rintro ⟨hi, hp, -⟩
    exact ⟨_, List.getElem?_eq_getElem hi, hp⟩
  · rintro ⟨a, ha, hp⟩
    obtain ⟨hi, rfl⟩ := List.getElem?_eq_some_iff.mp ha
    refine ⟨hi, hp, fun j hji hpj => ?_⟩
    have hj := List.getElem?_eq_getElem (Nat.lt_trans hji hi)
    exact absurd (hunique hj ha hpj hp) (Nat.ne_of_lt hji)

namespace CanonicalSet

variable {set : CanonicalSet} {i j : Nat}

/-- The look-ups of a set answer for the keys and the nodes of a snapshot. -/
structure Locates (set : CanonicalSet) (snapshot : Snapshot) : Prop where
  key_at : ∀ {key i}, set.positionOfKey? key = some i ↔ ∃ e, set.get? i = some e ∧ e.key = key
  key_absent : ∀ {key}, set.positionOfKey? key = none ↔ ∀ v ∈ snapshot, v.key ≠ some key
  node_at : ∀ {node i}, set.positionOf? node = some i ↔
    ∃ e, set.get? i = some e ∧ snapshot.Lists node (some e.key)
  node_absent : ∀ {node}, set.positionOf? node = none ↔
    node ∉ snapshot.map (·.node) ∨ snapshot.Lists node none
  agree : ∀ {node key}, snapshot.Lists node (some key) →
    ∃ i, set.positionOf? node = some i ∧ set.positionOfKey? key = some i
  key_once : ∀ {i j e e'}, set.get? i = some e → set.get? j = some e' → e.key = e'.key → i = j
  node_once : ∀ {i j e e' node}, set.get? i = some e → set.get? j = some e' →
    node ∈ e.nodes → node ∈ e'.nodes → i = j
  together_iff : ∀ {node node'},
    (∃ i, set.positionOf? node = some i ∧ set.positionOf? node' = some i) ↔
      ∃ key, snapshot.Lists node (some key) ∧ snapshot.Lists node' (some key)

namespace Represents

variable (h : set.Represents snapshot)
include h

theorem mem_nodes_iff {e : CanonicalValidator} (hi : set.get? i = some e) :
    node ∈ e.nodes ↔ snapshot.Lists node (some e.key) :=
  (h.gathers e (List.mem_of_getElem? hi)).mem_nodes_iff

/-- A key has one position. -/
theorem key_once {e e' : CanonicalValidator} (hi : set.get? i = some e) (hj : set.get? j = some e')
    (hkey : e.key = e'.key) : i = j := by
  have hlt : i < set.keys.length := by
    rw [keys, List.length_map]
    exact (List.getElem?_eq_some_iff.mp hi).1
  have hkeys : set.keys[i]? = set.keys[j]? := by
    simp only [get?] at hi hj
    simp [keys, hi, hj, hkey]
  exact (List.getElem?_inj hlt h.keys_nodup).mp hkeys

/-- A node has one position. -/
theorem node_once {e e' : CanonicalValidator} (hi : set.get? i = some e) (hj : set.get? j = some e')
    (hnode : node ∈ e.nodes) (hnode' : node ∈ e'.nodes) : i = j := by
  have hlists := (h.mem_nodes_iff hi).mp hnode
  have hlists' := (h.mem_nodes_iff hj).mp hnode'
  exact h.key_once hi hj (Option.some.inj (hlists.key_eq hlists' h.nodes_nodup))

/-- Each key that occurs has an entry. -/
theorem exists_entry (hlists : snapshot.Lists node (some key)) :
    ∃ i e, set.get? i = some e ∧ e.key = key := by
  obtain ⟨v, hv, -, hkey⟩ := hlists
  obtain ⟨e, he, rfl⟩ := List.mem_map.mp (h.mem_keys_iff.mpr ⟨v, hv, hkey⟩)
  obtain ⟨i, hi⟩ := List.mem_iff_getElem?.mp he
  exact ⟨i, e, hi, rfl⟩

/-! ## Keys -/

/-- The position of a key is that of the entry with the key. -/
theorem positionOfKey?_eq_some_iff :
    set.positionOfKey? key = some i ↔ ∃ e, set.get? i = some e ∧ e.key = key := by
  have hparted := parted_of_ascending (List.pairwise_map.mp h.keys_ascending) key
  rw [positionOfKey?, bisect_eq_some_iff hparted]
  simp only [Std.LawfulEqOrd.compare_eq_iff_eq]
  rfl

theorem positionOfKey?_eq_none_iff :
    set.positionOfKey? key = none ↔ ∀ v ∈ snapshot, v.key ≠ some key := by
  rw [Option.eq_none_iff_forall_ne_some]
  simp only [ne_eq, h.positionOfKey?_eq_some_iff]
  constructor
  · intro hnone v hv hkey
    obtain ⟨i, e, hi, hekey⟩ := h.exists_entry ⟨v, hv, rfl, hkey⟩
    exact hnone i ⟨e, hi, hekey⟩
  · rintro hnone i ⟨e, hi, rfl⟩
    obtain ⟨v, hv, hkey⟩ := h.mem_keys_iff.mp (List.mem_map_of_mem (List.mem_of_getElem? hi))
    exact hnone v hv hkey

/-! ## Nodes -/

/-- Bisection finds a node among those of an entry exactly where it is one of them. -/
theorem isSome_bisect_nodes_iff {e : CanonicalValidator} (hi : set.get? i = some e) :
    (bisect (compare · node) e.nodes).isSome ↔ node ∈ e.nodes := by
  have hascending := (h.gathers e (List.mem_of_getElem? hi)).nodes_ascending
  have hparted : Parted (compare · node) e.nodes := parted_of_ascending (f := id) hascending node
  rw [isSome_bisect_iff hparted]
  simp

/-- The position of a node is that of the entry with its key. -/
theorem positionOf?_eq_some_iff :
    set.positionOf? node = some i ↔ ∃ e, set.get? i = some e ∧ snapshot.Lists node (some e.key) := by
  -- no two entries have the node, so the first one that has it is the only one
  rw [positionOf?, findIdx?_eq_some_iff_of_unique]
  · refine exists_congr fun e => and_congr_right fun hi => ?_
    rw [h.isSome_bisect_nodes_iff hi, h.mem_nodes_iff hi]
  · intro j k e e' hj hk hfound hfound'
    exact h.node_once hj hk ((h.isSome_bisect_nodes_iff hj).mp hfound)
      ((h.isSome_bisect_nodes_iff hk).mp hfound')

/-- A node that is listed with a key signs at the position of the key. -/
theorem exists_position (hlists : snapshot.Lists node (some key)) :
    ∃ i, set.positionOf? node = some i ∧ set.positionOfKey? key = some i := by
  obtain ⟨i, e, hi, rfl⟩ := h.exists_entry hlists
  exact ⟨i, h.positionOf?_eq_some_iff.mpr ⟨e, hi, hlists⟩,
    h.positionOfKey?_eq_some_iff.mpr ⟨e, hi, rfl⟩⟩

/-- A node has no position if it is not listed or has no key. -/
theorem positionOf?_eq_none_iff : set.positionOf? node = none ↔
    node ∉ snapshot.map (·.node) ∨ snapshot.Lists node none := by
  constructor
  · intro hnone
    by_cases hmem : node ∈ snapshot.map (·.node)
    · obtain ⟨v, hv, hnode⟩ := List.mem_map.mp hmem
      cases hkey : v.key with
      | none => exact .inr ⟨v, hv, hnode, hkey⟩
      | some key =>
        obtain ⟨i, hi, -⟩ := h.exists_position ⟨v, hv, hnode, hkey⟩
        rw [hnone] at hi
        cases hi
    · exact .inl hmem
  · intro hunkeyed
    refine Option.eq_none_iff_forall_ne_some.mpr fun i hi => ?_
    obtain ⟨e, -, hlists⟩ := h.positionOf?_eq_some_iff.mp hi
    rcases hunkeyed with habsent | hkeyless
    · obtain ⟨v, hv, hnode, -⟩ := hlists
      exact habsent (List.mem_map.mpr ⟨v, hv, hnode⟩)
    · cases hlists.key_eq hkeyless h.nodes_nodup

/-- Two nodes sign at one position exactly if they share a key. -/
theorem together_iff {node' : NodeId} :
    (∃ i, set.positionOf? node = some i ∧ set.positionOf? node' = some i) ↔
      ∃ key, snapshot.Lists node (some key) ∧ snapshot.Lists node' (some key) := by
  constructor
  · rintro ⟨i, hi, hi'⟩
    obtain ⟨e, he, hlists⟩ := h.positionOf?_eq_some_iff.mp hi
    obtain ⟨e', he', hlists'⟩ := h.positionOf?_eq_some_iff.mp hi'
    rw [he, Option.some_inj] at he'
    exact ⟨e.key, hlists, he' ▸ hlists'⟩
  · rintro ⟨key, hlists, hlists'⟩
    obtain ⟨i, hi, hkey⟩ := h.exists_position hlists
    obtain ⟨i', hi', hkey'⟩ := h.exists_position hlists'
    rw [hkey, Option.some_inj] at hkey'
    exact ⟨i, hi, hkey' ▸ hi'⟩

end Represents

/-- **Signers are looked up as the snapshot names them.** A key has the position of its entry, a node that
of the entry of its key; keys that do not occur, nodes that are absent and nodes without a key have none.
So the look-ups of a node and of its key agree, no key and no node is at two positions, and nodes are at
one position exactly where they share a key. -/
theorem locates_of_ofSnapshot (hset : ofSnapshot snapshot = .ok set) : set.Locates snapshot :=
  have h := represents_of_ofSnapshot hset
  { key_at := h.positionOfKey?_eq_some_iff
    key_absent := h.positionOfKey?_eq_none_iff
    node_at := h.positionOf?_eq_some_iff
    node_absent := h.positionOf?_eq_none_iff
    agree := h.exists_position
    key_once := h.key_once
    node_once := h.node_once
    together_iff := h.together_iff }

/-- Two nodes share the key of the second position, and a third has none. -/
theorem locates_of_two_keys :
    let low : PublicKey := ⟨.ofNat publicKeyLength 1⟩
    let high : PublicKey := ⟨.ofNat publicKeyLength 2⟩
    let snapshot : Snapshot := [⟨⟨.ofNat 20 3⟩, some high, 10⟩, ⟨⟨.ofNat 20 1⟩, none, 10⟩,
      ⟨⟨.ofNat 20 2⟩, some low, 10⟩, ⟨.zero, some high, 10⟩]
    let set : CanonicalSet :=
      ⟨[⟨low, 10, [⟨.ofNat 20 2⟩]⟩, ⟨high, 20, [.zero, ⟨.ofNat 20 3⟩]⟩], 40⟩
    ofSnapshot snapshot = .ok set ∧ set.positionOfKey? low = some 0 ∧
      set.positionOf? ⟨.ofNat 20 1⟩ = none ∧
      ∃ i, set.positionOf? .zero = some i ∧ set.positionOf? ⟨.ofNat 20 3⟩ = some i := by
  intro low high snapshot set
  have hset : ofSnapshot snapshot = .ok set := by decide +kernel
  have hlocates : set.Locates snapshot := locates_of_ofSnapshot hset
  refine ⟨hset, hlocates.key_at.mpr ⟨_, rfl, rfl⟩,
    hlocates.node_absent.mpr (.inr ⟨⟨⟨.ofNat 20 1⟩, none, 10⟩, ?_, rfl, rfl⟩),
    hlocates.together_iff.mpr ⟨high, ⟨⟨.zero, some high, 10⟩, ?_, rfl, rfl⟩,
      ⟨⟨⟨.ofNat 20 3⟩, some high, 10⟩, ?_, rfl, rfl⟩⟩⟩ <;> simp [snapshot]

/-! ## Participants -/

theorem lacksKey_iff : lacksKey snapshot node ↔ snapshot.Lists node none := by
  simp [lacksKey, Snapshot.Lists]

/-- The node is the first participant that the snapshot lists without a key. -/
def FirstKeyless (snapshot : Snapshot) (participants : List NodeId) (node : NodeId) : Prop :=
  ∃ before after, participants = before ++ node :: after ∧ snapshot.Lists node none ∧
    ∀ other ∈ before, ¬snapshot.Lists other none

variable {participants : List NodeId}

theorem find?_lacksKey_eq_some_iff :
    participants.find? (lacksKey snapshot) = some node ↔
      FirstKeyless snapshot participants node := by
  rw [List.find?_eq_some_iff_append, lacksKey_iff]
  simp only [Bool.not_eq_true', ← Bool.not_eq_true, lacksKey_iff]
  constructor
  · rintro ⟨hkeyless, before, after, hsplit, hbefore⟩
    exact ⟨before, after, hsplit, hkeyless, hbefore⟩
  · rintro ⟨before, after, hsplit, hkeyless, hbefore⟩
    exact ⟨hkeyless, before, after, hsplit, hbefore⟩

theorem find?_lacksKey_eq_none_iff : participants.find? (lacksKey snapshot) = none ↔
    ∀ node ∈ participants, ¬snapshot.Lists node none := by
  rw [List.find?_eq_none]
  simp only [lacksKey_iff]

/-- Either every listed participant has a key, or one is the first without. -/
theorem keyed_or_exists_firstKeyless (snapshot : Snapshot) (participants : List NodeId) :
    (∀ node ∈ participants, ¬snapshot.Lists node none) ∨
      ∃ node, FirstKeyless snapshot participants node := by
  cases hfind : participants.find? (lacksKey snapshot) with
  | none => exact .inl (find?_lacksKey_eq_none_iff.mp hfind)
  | some node => exact .inr ⟨node, find?_lacksKey_eq_some_iff.mp hfind⟩

/-- The first participant without a key is the error, whatever else is wrong. -/
theorem ofParticipants_of_firstKeyless (h : FirstKeyless snapshot participants node) :
    ofParticipants snapshot participants = .error (.missingPublicKey node) := by
  rw [ofParticipants, find?_lacksKey_eq_some_iff.mpr h]

/-- Where every participant that is listed has a key, the set is that of the snapshot. -/
theorem ofParticipants_of_keyed (h : ∀ node ∈ participants, ¬snapshot.Lists node none) :
    ofParticipants snapshot participants = ofSnapshot snapshot := by
  rw [ofParticipants, find?_lacksKey_eq_none_iff.mpr h]

theorem enter_ne_missingPublicKey {weight : UInt64} {entries : List CanonicalValidator}
    {other : NodeId} : enter key node weight entries ≠ .error (.missingPublicKey other) := by
  induction entries with
  | nil =>
    intro h
    cases h
  | cons e rest ih =>
    intro h
    rw [enter] at h
    split at h
    · cases h
    · split at h <;> cases h
    · exact ih (Outcome.map_eq_error_iff.mp h)

theorem Tally.add_ne_missingPublicKey {t : Tally} {v : Validator} :
    t.add v ≠ .error (.missingPublicKey node) := by
  intro h
  rw [Tally.add] at h
  split at h
  · cases h
  split at h
  · cases h
  split at h
  · cases h
  · exact enter_ne_missingPublicKey (Outcome.map_eq_error_iff.mp h)

/-- A snapshot is never refused for a key that is missing. -/
theorem ofSnapshot_ne_missingPublicKey :
    ofSnapshot snapshot ≠ .error (.missingPublicKey node) := by
  intro h
  obtain ⟨-, v, -, t, -, -, hadd⟩ :=
    Outcome.foldlM_eq_error_iff.mp (Outcome.map_eq_error_iff.mp h)
  exact Tally.add_ne_missingPublicKey hadd

/-- A missing key is reported of the first participant without one, and never otherwise. -/
theorem ofParticipants_eq_missingPublicKey_iff :
    ofParticipants snapshot participants = .error (.missingPublicKey node) ↔
      FirstKeyless snapshot participants node := by
  refine ⟨fun hrefused => ?_, ofParticipants_of_firstKeyless⟩
  obtain hkeyed | ⟨first, hfirst⟩ := keyed_or_exists_firstKeyless snapshot participants
  · rw [ofParticipants_of_keyed hkeyed] at hrefused
    exact absurd hrefused ofSnapshot_ne_missingPublicKey
  · rw [ofParticipants_of_firstKeyless hfirst] at hrefused
    cases hrefused
    exact hfirst

/-- Where there is a set, the participants all have keys, and it is the set of the snapshot. -/
theorem keyed_of_ofParticipants (h : ofParticipants snapshot participants = .ok set) :
    (∀ node ∈ participants, ¬snapshot.Lists node none) ∧ ofSnapshot snapshot = .ok set := by
  obtain hkeyed | ⟨first, hfirst⟩ := keyed_or_exists_firstKeyless snapshot participants
  · rw [ofParticipants_of_keyed hkeyed] at h
    exact ⟨hkeyed, h⟩
  · rw [ofParticipants_of_firstKeyless hfirst] at h
    cases h

/-- **Participants without a key are refused before anything else.** The canonical set for participants
is refused for a missing key exactly where the snapshot lists one of them without a key, whatever else is
wrong with it, and the first such participant is named; else the set is that of the snapshot. So wherever
there is a set, every participant that is listed is among the nodes of the position where it is found. -/
theorem ofParticipants_requires_keys (snapshot : Snapshot) (participants : List NodeId) :
    (∀ node, ofParticipants snapshot participants = .error (.missingPublicKey node) ↔
      FirstKeyless snapshot participants node) ∧
    ((∃ node, ofParticipants snapshot participants = .error (.missingPublicKey node)) ↔
      ∃ node ∈ participants, snapshot.Lists node none) ∧
    ((∀ node ∈ participants, ¬snapshot.Lists node none) →
      ofParticipants snapshot participants = ofSnapshot snapshot) ∧
    ∀ set, ofParticipants snapshot participants = .ok set →
      ∀ node ∈ participants, node ∈ snapshot.map (·.node) →
        ∃ i e, set.positionOf? node = some i ∧ set.get? i = some e ∧ node ∈ e.nodes := by
  refine ⟨fun node => ofParticipants_eq_missingPublicKey_iff, ?_, ofParticipants_of_keyed, ?_⟩
  · constructor
    · rintro ⟨node, hrefused⟩
      obtain ⟨before, after, rfl, hkeyless, -⟩ :=
        ofParticipants_eq_missingPublicKey_iff.mp hrefused
      exact ⟨node, List.mem_append_cons_self, hkeyless⟩
    · rintro ⟨node, hmem, hkeyless⟩
      obtain hkeyed | ⟨first, hfirst⟩ := keyed_or_exists_firstKeyless snapshot participants
      · exact absurd hkeyless (hkeyed node hmem)
      · exact ⟨first, ofParticipants_of_firstKeyless hfirst⟩
  · intro set hok node hmem hlisted
    obtain ⟨hkeyed, hset⟩ := keyed_of_ofParticipants hok
    have h := represents_of_ofSnapshot hset
    obtain ⟨v, hv, rfl⟩ := List.mem_map.mp hlisted
    obtain ⟨key, hkey⟩ := Option.ne_none_iff_exists'.mp fun hnone => hkeyed _ hmem ⟨v, hv, rfl, hnone⟩
    obtain ⟨i, hi, -⟩ := h.exists_position ⟨v, hv, rfl, hkey⟩
    obtain ⟨e, he, hlists⟩ := h.positionOf?_eq_some_iff.mp hi
    exact ⟨i, e, hi, he, (h.mem_nodes_iff he).mpr hlists⟩

/-- A key that is missing is reported before a node that is repeated. -/
example : ofParticipants [⟨.zero, some default, 1⟩, ⟨.zero, none, 1⟩] [.zero] =
    .error (.missingPublicKey .zero) := by decide +kernel

end CanonicalSet

end StakeGuard
