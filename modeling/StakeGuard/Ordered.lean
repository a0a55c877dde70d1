/-!
# Ascending lists

Insertion into a list in ascending order, sorting, and search by bisection. Main statements: putting a
new element into a strictly ascending list keeps it strictly ascending (`pairwise_insertAscending`), and
bisection finds the wanted element of such a list wherever it is (`bisect_eq_some_iff`).
-/

namespace StakeGuard

variable {α : Type}

/-- Puts an element in front of the first element that is not smaller. -/
def insertAscending [Ord α] (a : α) : List α → List α
  | [] => [a]
  | b :: rest =>
    match compare a b with
    | .gt => b :: insertAscending a rest
    | _ => a :: b :: rest

/-- The list in ascending order; equal elements stay in the order in which they stand. -/
def ascending [Ord α] (xs : List α) : List α := xs.mergeSort fun a b => (compare a b).isLE

/-- Halves the range from `low` up to `high` until an element is found at which `order` is `eq`;
`order` says on which side of the wanted element another one lies. -/
def bisectFrom (order : α → Ordering) (xs : List α) :
    (fuel : Nat) → (low high : Nat) → Option Nat
  | 0, _, _ => none
  | fuel + 1, low, high =>
    if low < high then
      let middle := (low + high) / 2
      match xs[middle]? with
      | none => none
      | some x =>
        match order x with
        | .eq => some middle
        | .lt => bisectFrom order xs fuel (middle + 1) high
        | .gt => bisectFrom order xs fuel low middle
    else none

/-- The index of the wanted element in an ascending list. -/
def bisect (order : α → Ordering) (xs : List α) : Option Nat :=
  bisectFrom order xs xs.length 0 xs.length

section Insertion

variable [Ord α]

theorem ne_of_compare_lt [Std.ReflOrd α] {a b : α} (h : compare a b = .lt) : a ≠ b := by
  rintro rfl
  rw [Std.ReflOrd.compare_self] at h
  cases h

theorem insertAscending_perm (a : α) (xs : List α) : (insertAscending a xs).Perm (a :: xs) := by
  induction xs with
  | nil => exact .refl _
  | cons b rest ih =>
    rw [insertAscending]
    split
    · exact (ih.cons b).trans (.swap a b rest)
    · exact .refl _

theorem mem_insertAscending_iff {a b : α} {xs : List α} :
    b ∈ insertAscending a xs ↔ b = a ∨ b ∈ xs := by
  rw [(insertAscending_perm a xs).mem_iff, List.mem_cons]

theorem pairwise_insertAscending [Std.TransOrd α] [Std.LawfulEqOrd α] {a : α} {xs : List α}
    (hxs : xs.Pairwise (compare · · = .lt)) (ha : a ∉ xs) :
    (insertAscending a xs).Pairwise (compare · · = .lt) := by
  induction xs with
  | nil => exact List.pairwise_singleton _ _
  | cons b rest ih =>
    obtain ⟨hb, hrest⟩ := List.pairwise_cons.mp hxs
    rw [List.mem_cons, not_or] at ha
    rw [insertAscending]
    split
    · next hgt =>
      refine List.pairwise_cons.mpr ⟨fun c hc => ?_, ih hrest ha.2⟩
      rcases mem_insertAscending_iff.mp hc with rfl | hc
      · exact Std.OrientedCmp.lt_of_gt hgt
      · exact hb c hc
    · next hngt =>
      have hlt : compare a b = .lt := by
        cases h : compare a b with
        | lt => rfl
        | eq => exact absurd (Std.LawfulEqOrd.eq_of_compare h) ha.1
        | gt => exact absurd h hngt
      refine List.pairwise_cons.mpr ⟨fun c hc => ?_, hxs⟩
      rcases List.mem_cons.mp hc with rfl | hc
      · exact hlt
      · exact Std.TransCmp.lt_trans hlt (hb c hc)

end Insertion

section Bisection

variable {β : Type} {order : α → Ordering} {xs : List α} {x y : α} {i j : Nat}

/-- Of any two elements the first lies before the wanted one or the second behind it. -/
def Parted (order : α → Ordering) (xs : List α) : Prop :=
  xs.Pairwise fun a b => order a = .lt ∨ order b = .gt

theorem parted_of_ascending [Ord β] [Std.TransOrd β] {f : α → β}
    (h : xs.Pairwise fun a b => compare (f a) (f b) = .lt) (wanted : β) :
    Parted (fun a => compare (f a) wanted) xs := by
  refine h.imp fun {a b} hab => ?_
  by_cases hlt : compare (f a) wanted = .lt
  · exact .inl hlt
  · have hle : (compare wanted (f a)).isLE :=
      Std.OrientedCmp.isGE_iff_isLE.mp (Ordering.isGE_iff_ne_lt.mpr hlt)
    exact .inr (Std.OrientedCmp.gt_of_lt (Std.TransCmp.lt_of_isLE_of_lt hle hab))

/-- The elements lie around the wanted one as their indices do. -/
theorem Parted.order_eq (h : Parted order xs) (hi : xs[i]? = some x) (hx : order x = .eq)
    (hj : xs[j]? = some y) : order y = compare j i := by
  obtain ⟨hi', rfl⟩ := List.getElem?_eq_some_iff.mp hi
  obtain ⟨hj', rfl⟩ := List.getElem?_eq_some_iff.mp hj
  have hpairs := List.pairwise_iff_getElem.mp h
  rcases Nat.lt_trichotomy j i with hlt | rfl | hgt
  · rw [Nat.compare_eq_lt.mpr hlt]
    exact (hpairs j i hj' hi' hlt).resolve_right (by simp [hx])
  · rw [Nat.compare_eq_eq.mpr rfl, hx]
  · rw [Nat.compare_eq_gt.mpr hgt]
    exact (hpairs i j hi' hj' hgt).resolve_left (by simp [hx])

/-- What is found is the wanted element, whether the list is in order or not. -/
theorem getElem?_of_bisectFrom {fuel low high : Nat}
    (h : bisectFrom order xs fuel low high = some i) : ∃ x, xs[i]? = some x ∧ order x = .eq := by
  induction fuel generalizing low high with
  | zero => cases h
  | succ fuel ih =>
    simp only [bisectFrom] at h
    split at h
    · split at h
      · cases h
      · next x hx =>
        split at h
        · next heq =>
          cases h
          exact ⟨x, hx, heq⟩
        · exact ih h
        · exact ih h
    · cases h

/-- The range keeps the wanted element when it is halved, and every round costs it an index. -/
theorem Parted.bisectFrom_eq (h : Parted order xs) (hi : xs[i]? = some x) (hx : order x = .eq)
    {fuel low high : Nat} (hlow : low ≤ i) (hhigh : i < high) (hlength : high ≤ xs.length)
    (hfuel : high ≤ low + fuel) : bisectFrom order xs fuel low high = some i := by
  induction fuel generalizing low high with
  | zero => omega
  | succ fuel ih =>
    have hmiddle : xs[(low + high) / 2]? = some xs[(low + high) / 2] := List.getElem?_eq_getElem _
    simp only [bisectFrom, hmiddle, h.order_eq hi hx hmiddle,
      if_pos (Nat.lt_of_le_of_lt hlow hhigh)]
    split
    · next heq => rw [Nat.compare_eq_eq.mp heq]
    · next hlt =>
      have hbelow := Nat.compare_eq_lt.mp hlt
      exact ih (by omega) hhigh hlength (by omega)
    · next hgt =>
      have habove := Nat.compare_eq_gt.mp hgt
      exact ih hlow (by omega) (by omega) (by omega)

theorem bisect_eq_some_iff (h : Parted order xs) :
    bisect order xs = some i ↔ ∃ x, xs[i]? = some x ∧ order x = .eq := by
  refine ⟨getElem?_of_bisectFrom, ?_⟩
  rintro ⟨x, hi, hx⟩
  obtain ⟨hlt, -⟩ := List.getElem?_eq_some_iff.mp hi
  exact h.bisectFrom_eq hi hx (Nat.zero_le i) hlt (Nat.le_refl _) (Nat.le_add_left _ _)

theorem isSome_bisect_iff (h : Parted order xs) :
    (bisect order xs).isSome ↔ ∃ x ∈ xs, order x = .eq := by
  simp only [Option.isSome_iff_exists, bisect_eq_some_iff h, List.mem_iff_getElem?]
  constructor
  · rintro ⟨i, x, hi, hx⟩
    exact ⟨x, ⟨i, hi⟩, hx⟩
  · rintro ⟨x, ⟨i, hi⟩, hx⟩
    exact ⟨i, x, hi, hx⟩

end Bisection

end StakeGuard
