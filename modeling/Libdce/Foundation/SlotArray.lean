import Mathlib

/-!
# Fixed arrays of cells with a null value

An array of `n` cells holds at most `n` values; the cells that hold the null
value `0` are free. Values are stored in the first free cell and removed from
the first cell that holds them. What an array stores is a multiset: a value may
sit in several cells.
-/

namespace Libdce.Foundation.SlotArray

variable {α σ : Type*} {n : ℕ}

section Cells

variable [DecidableEq α]

/-- The first cell that holds `x`. -/
def firstAt (f : Fin n → α) (x : α) : Option (Fin n) := Fin.find? fun i => f i = x

/-- Write `y` over the first cell that holds `x`, if one does. -/
def replaceFirst (f : Fin n → α) (x y : α) : Fin n → α :=
  match firstAt f x with
  | some i => Function.update f i y
  | none => f

theorem firstAt_eq_some_iff {f : Fin n → α} {x : α} {i : Fin n} :
    firstAt f x = some i ↔ f i = x ∧ ∀ j < i, f j ≠ x := by
  simp [firstAt]

theorem firstAt_eq_none_iff {f : Fin n → α} {x : α} :
    firstAt f x = none ↔ ∀ i, f i ≠ x := by
  simp [firstAt]

theorem replaceFirst_of_firstAt {f : Fin n → α} {x y : α} {i : Fin n}
    (h : firstAt f x = some i) : replaceFirst f x y = Function.update f i y := by
  simp [replaceFirst, h]

theorem replaceFirst_of_absent {f : Fin n → α} {x y : α} (h : ∀ i, f i ≠ x) :
    replaceFirst f x y = f := by
  simp [replaceFirst, firstAt_eq_none_iff.mpr h]

/-- A replacement touches one cell that held `x`, or none. -/
theorem replaceFirst_apply (f : Fin n → α) (x y : α) (i : Fin n) :
    replaceFirst f x y i = f i ∨ (f i = x ∧ replaceFirst f x y i = y) := by
  cases h : firstAt f x with
  | none => simp [replaceFirst, h]
  | some j =>
      rw [replaceFirst_of_firstAt h, Function.update_apply]
      have hj := (firstAt_eq_some_iff.mp h).1
      by_cases hij : i = j
      · subst i
        simp [hj]
      · simp [hij]

variable [Zero α]

/-- The values stored, in the order of their cells. -/
def entries (f : Fin n → α) : List α := (List.ofFn f).filter (· ≠ 0)

/-- The values stored, each as often as it occurs. -/
def occupied (f : Fin n → α) : Multiset α := entries f

/-- What one cell stores. -/
def cell (x : α) : Multiset α := if x = 0 then 0 else {x}

@[simp] theorem cell_zero : cell (0 : α) = 0 := by simp [cell]

theorem cell_of_ne {x : α} (h : x ≠ 0) : cell x = {x} := by simp [cell, h]

theorem occupied_eq_sum (f : Fin n → α) : occupied f = ∑ i, cell (f i) := by
  have hlist : ∀ l : List α, ((l.filter (· ≠ 0) : List α) : Multiset α) = (l.map cell).sum := by
    intro l
    induction l with
    | nil => rfl
    | cons x l ih =>
        by_cases hx : x = 0
        · simp_all
        · simp only [List.filter_cons, List.map_cons, List.sum_cons, ← ih, cell_of_ne hx]
          simp [hx, Multiset.singleton_add]
  rw [occupied, entries, hlist, List.map_ofFn, List.sum_ofFn]
  rfl

@[simp] theorem mem_entries {f : Fin n → α} {x : α} :
    x ∈ entries f ↔ x ≠ 0 ∧ ∃ i, f i = x := by
  simp [entries, and_comm]

@[simp] theorem mem_occupied {f : Fin n → α} {x : α} :
    x ∈ occupied f ↔ x ≠ 0 ∧ ∃ i, f i = x := by
  simp [occupied]

theorem card_occupied (f : Fin n → α) : (occupied f).card = (entries f).length := rfl

theorem card_occupied_le (f : Fin n → α) : (occupied f).card ≤ n :=
  (List.length_filter_le _ _).trans_eq (List.length_ofFn ..)

@[simp] theorem occupied_zero : occupied (0 : Fin n → α) = 0 := by
  simp [occupied_eq_sum]

theorem occupied_eq_zero_iff {f : Fin n → α} : occupied f = 0 ↔ f = 0 := by
  constructor
  · intro h
    funext i
    by_contra hi
    have hmem : f i ∈ occupied f := mem_occupied.mpr ⟨hi, i, rfl⟩
    simp [h] at hmem
  · rintro rfl
    exact occupied_zero

/-- Overwriting a cell exchanges what that cell stores. -/
theorem occupied_update (f : Fin n → α) (i : Fin n) (x : α) :
    occupied (Function.update f i x) + cell (f i) = occupied f + cell x := by
  have hrest : ∑ j ∈ Finset.univ.erase i, cell (Function.update f i x j) =
      ∑ j ∈ Finset.univ.erase i, cell (f j) := by
    refine Finset.sum_congr rfl fun j hj => ?_
    rw [Function.update_of_ne (Finset.ne_of_mem_erase hj)]
  calc
    occupied (Function.update f i x) + cell (f i) =
        cell x + ∑ j ∈ Finset.univ.erase i, cell (f j) + cell (f i) := by
      rw [occupied_eq_sum, ← Finset.add_sum_erase _ _ (Finset.mem_univ i), hrest,
        Function.update_self]
    _ = cell (f i) + ∑ j ∈ Finset.univ.erase i, cell (f j) + cell x := by ac_rfl
    _ = occupied f + cell x := by
      rw [occupied_eq_sum, Finset.add_sum_erase _ (fun j => cell (f j)) (Finset.mem_univ i)]

theorem occupied_update_free {f : Fin n → α} {i : Fin n} (hi : f i = 0) {x : α} (hx : x ≠ 0) :
    occupied (Function.update f i x) = x ::ₘ occupied f := by
  have h := occupied_update f i x
  rw [hi, cell_zero, add_zero, cell_of_ne hx] at h
  rw [h, add_comm, Multiset.singleton_add]

theorem occupied_update_zero (f : Fin n → α) (i : Fin n) :
    occupied (Function.update f i 0) = (occupied f).erase (f i) := by
  have h := occupied_update f i 0
  rw [cell_zero, add_zero] at h
  by_cases hi : f i = 0
  · have hnot : f i ∉ occupied f := by simp [hi]
    rw [Multiset.erase_of_notMem hnot, ← h, hi, cell_zero, add_zero]
  · rw [cell_of_ne hi] at h
    rw [← h, add_comm, Multiset.singleton_add, Multiset.erase_cons_head]

/-- Storing a value in the first free cell adds it. -/
theorem occupied_store {f : Fin n → α} (hroom : ∃ i, f i = 0) {x : α} (hx : x ≠ 0) :
    occupied (replaceFirst f 0 x) = x ::ₘ occupied f := by
  cases h : firstAt f 0 with
  | none =>
      obtain ⟨i, hi⟩ := hroom
      exact absurd hi (firstAt_eq_none_iff.mp h i)
  | some i =>
      rw [replaceFirst_of_firstAt h]
      exact occupied_update_free (firstAt_eq_some_iff.mp h).1 hx

/-- Clearing the first cell that holds a value removes one copy of it. -/
theorem occupied_clear (f : Fin n → α) (x : α) :
    occupied (replaceFirst f x 0) = (occupied f).erase x := by
  cases h : firstAt f x with
  | none =>
      have habs := firstAt_eq_none_iff.mp h
      rw [replaceFirst_of_absent habs, Multiset.erase_of_notMem]
      simp only [mem_occupied, not_and, not_exists]
      exact fun _ => habs
  | some i =>
      rw [replaceFirst_of_firstAt h, occupied_update_zero, (firstAt_eq_some_iff.mp h).1]

/-- An array with fewer values than cells has a free cell. -/
theorem exists_free_of_card_lt {f : Fin n → α} (h : (occupied f).card < n) : ∃ i, f i = 0 := by
  by_contra hfull
  push Not at hfull
  have hall : entries f = List.ofFn f := by
    refine List.filter_eq_self.mpr fun x hx => ?_
    obtain ⟨i, rfl⟩ := List.mem_ofFn.mp hx
    simpa using hfull i
  rw [card_occupied, hall, List.length_ofFn] at h
  exact lt_irrefl n h

/-- The values stored in the first `k` cells. -/
def entriesBelow (f : Fin n → α) (k : ℕ) : List α := ((List.ofFn f).take k).filter (· ≠ 0)

@[simp] theorem entriesBelow_zero (f : Fin n → α) : entriesBelow f 0 = [] := rfl

theorem entriesBelow_succ (f : Fin n → α) (i : Fin n) :
    entriesBelow f (i + 1) = entriesBelow f i ++ if f i = 0 then [] else [f i] := by
  have hlt : i.val < (List.ofFn f).length := by simp
  rw [entriesBelow, List.take_succ_eq_append_getElem hlt, List.filter_append]
  by_cases hi : f i = 0 <;> simp [entriesBelow, hi]

theorem entriesBelow_all (f : Fin n → α) : entriesBelow f n = entries f := by
  rw [entriesBelow, List.take_of_length_le (List.length_ofFn ..).le, entries]

theorem length_entriesBelow_le (f : Fin n → α) (k : ℕ) :
    (entriesBelow f k).length ≤ (entries f).length :=
  ((List.take_sublist _ _).filter _).length_le

/-- The array after its first `k` cells have been cleared. -/
def clearBelow (f : Fin n → α) (k : ℕ) : Fin n → α := fun i => if i.val < k then 0 else f i

omit [DecidableEq α] in
@[simp] theorem clearBelow_zero (f : Fin n → α) : clearBelow f 0 = f := by
  funext i
  simp [clearBelow]

omit [DecidableEq α] in
theorem clearBelow_all (f : Fin n → α) : clearBelow f n = 0 := by
  funext i
  simp [clearBelow]

omit [DecidableEq α] in
@[simp] theorem clearBelow_self (f : Fin n → α) (i : Fin n) : clearBelow f i i = f i := by
  simp [clearBelow]

omit [DecidableEq α] in
theorem clearBelow_succ_of_free {f : Fin n → α} {i : Fin n} (hi : f i = 0) :
    clearBelow f (i + 1) = clearBelow f i := by
  funext j
  by_cases hji : j = i
  · subst j
    simp [clearBelow, hi]
  · have hne : j.val ≠ i.val := fun h => hji (Fin.ext h)
    have hiff : j.val < i.val + 1 ↔ j.val < i.val := by omega
    simp only [clearBelow, hiff]

/-- Clearing the first copy of a value clears the cell just reached when all
cells before it are free. -/
theorem replaceFirst_clearBelow {f : Fin n → α} {i : Fin n} (hi : f i ≠ 0) :
    replaceFirst (clearBelow f i) (f i) 0 = clearBelow f (i + 1) := by
  have hfirst : firstAt (clearBelow f i) (f i) = some i := by
    refine firstAt_eq_some_iff.mpr ⟨clearBelow_self f i, fun j hj => ?_⟩
    have hlt : j.val < i.val := hj
    simpa [clearBelow, hlt] using hi.symm
  rw [replaceFirst_of_firstAt hfirst]
  funext j
  by_cases hji : j = i
  · subst j
    simp [clearBelow]
  · have hne : j.val ≠ i.val := fun h => hji (Fin.ext h)
    have hiff : j.val < i.val + 1 ↔ j.val < i.val := by omega
    rw [Function.update_of_ne hji]
    simp only [clearBelow, hiff]

end Cells

section Sweep

/-- Visit the cells in index order, as a counting loop does. -/
def sweep (f : σ → Fin n → σ) (s : σ) : σ := (List.finRange n).foldl f s

/-- Two sweeps whose rounds match stay related. -/
theorem sweep_rel {τ : Type*} {f : σ → Fin n → σ} {g : τ → Fin n → τ} {R : σ → τ → Prop} {s : σ}
    {t : τ} (h : R s t) (hround : ∀ s t i, R s t → R (f s i) (g t i)) :
    R (sweep f s) (sweep g t) :=
  List.foldl_rel h fun i _ s t hst => hround s t i hst

/-- A loop invariant indexed by the number of visited cells. -/
theorem sweep_invariant {f : σ → Fin n → σ} {s : σ} {I : ℕ → σ → Prop} (h0 : I 0 s)
    (hstep : ∀ (i : Fin n) s, I i s → I (i + 1) (f s i)) : I n (sweep f s) := by
  have hprefix : ∀ k ≤ n, I k (((List.finRange n).take k).foldl f s) := by
    intro k
    induction k with
    | zero => simpa using h0
    | succ k ih =>
        intro hk
        have hlt : k < (List.finRange n).length := by
          rw [List.length_finRange]
          omega
        rw [List.take_succ_eq_append_getElem hlt, List.foldl_append]
        simpa using hstep ⟨k, hk⟩ _ (ih (by omega))
  have hall := hprefix n le_rfl
  rwa [List.take_of_length_le (List.length_finRange ..).le] at hall

end Sweep

end Libdce.Foundation.SlotArray
