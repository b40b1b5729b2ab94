import Mathlib

/-!
# A write-back data cache

A cache holds copies of some lines of a memory that others use too. Reading or
writing a byte loads its line, a written line is dirty, and memory is changed
only when a dirty line is written back. The view of a cache is the memory as its
own processor sees it.

## Implementation notes

The view is a plain memory, so a cached memory is related to a flat one by
saying which memory the view is. A cache is sound when its clean lines agree
with memory; writing back and dropping lines then leaves the view alone.
-/

namespace Libdce.Foundation.WriteBackCache

/-- The copy of a line of `L` elements. -/
structure Line (L : ℕ) (β : Type*) where
  bytes : Fin L → β
  dirty : Bool

/-- A memory and the copies of some of its lines. -/
structure Cache (L : ℕ) (β : Type*) where
  memory : ℕ → β
  lines : ℕ → Option (Line L β)

/-- A line overlaps the range of `n` addresses from `a` on. -/
def Overlaps (L a n l : ℕ) : Prop := ∃ i < n, (a + i) / L = l

instance (L a n : ℕ) : DecidablePred (Overlaps L a n) := fun l =>
  inferInstanceAs (Decidable (∃ i < n, (a + i) / L = l))

variable {L : ℕ} {β : Type*}

/-- The lines of a range are those from its first to its last address. -/
theorem overlaps_iff {a n l : ℕ} (hn : 0 < n) :
    Overlaps L a n l ↔ a / L ≤ l ∧ l ≤ (a + n - 1) / L := by
  constructor
  · rintro ⟨i, hi, rfl⟩
    exact ⟨Nat.div_le_div_right (by omega), Nat.div_le_div_right (by omega)⟩
  · rintro ⟨hlo, hhi⟩
    rcases Nat.eq_zero_or_pos L with rfl | hL
    · exact ⟨0, hn, by simp only [Nat.div_zero] at *; omega⟩
    rcases hlo.eq_or_lt with rfl | hlt
    · exact ⟨0, hn, by rw [Nat.add_zero]⟩
    · -- the first address of the line lies in the range
      have hfirst : a < l * L := (Nat.div_lt_iff_lt_mul hL).mp hlt
      have hlast : l * L ≤ a + n - 1 := (Nat.le_div_iff_mul_le hL).mp hhi
      refine ⟨l * L - a, by omega, ?_⟩
      rw [Nat.add_sub_cancel' hfirst.le, Nat.mul_div_cancel _ hL]

namespace Cache

/-- A cache without lines. -/
def cold (memory : ℕ → β) : Cache L β := ⟨memory, fun _ => none⟩

/-- The cache has a copy of the line. -/
def Cached (c : Cache L β) (l : ℕ) : Prop := (c.lines l).isSome

instance (c : Cache L β) : DecidablePred c.Cached := fun l =>
  inferInstanceAs (Decidable ((c.lines l).isSome = true))

/-- Others replace the contents of memory behind the cache. -/
def store (c : Cache L β) (memory : ℕ → β) : Cache L β := { c with memory := memory }

theorem not_cached_cold (memory : ℕ → β) (l : ℕ) : ¬(cold memory : Cache L β).Cached l :=
  Bool.false_ne_true

theorem lines_of_not_cached {c : Cache L β} {l : ℕ} (h : ¬c.Cached l) : c.lines l = none :=
  Option.not_isSome_iff_eq_none.mp h

/-- The copy of a line, made from memory if there is none. -/
def fetch (c : Cache L β) (l : ℕ) : Line L β :=
  (c.lines l).getD ⟨fun i => c.memory (L * l + i), false⟩

/-- Load a line. -/
def load (c : Cache L β) (l : ℕ) : Cache L β :=
  { c with lines := Function.update c.lines l (some (c.fetch l)) }

@[simp] theorem memory_load (c : Cache L β) (l : ℕ) : (c.load l).memory = c.memory := rfl

theorem cached_load (c : Cache L β) (l l' : ℕ) : (c.load l).Cached l' ↔ c.Cached l' ∨ l' = l := by
  by_cases h : l' = l
  · subst h
    simp [Cached, load]
  · simp [Cached, load, h]

theorem fetch_load (c : Cache L β) (l l' : ℕ) : (c.load l).fetch l' = c.fetch l' := by
  by_cases h : l' = l
  · subst h
    simp [fetch, load]
  · simp [fetch, load, Function.update_of_ne h]

@[simp] theorem load_load (c : Cache L β) (l : ℕ) : (c.load l).load l = c.load l := by
  simp only [load, Function.update_idem]
  congr 2
  exact congrArg some (fetch_load c l l)

/-- Clean copies agree with memory. -/
def Sound (c : Cache L β) : Prop :=
  ∀ l line, c.lines l = some line → line.dirty = false →
    ∀ i : Fin L, line.bytes i = c.memory (L * l + i)

/-- The line of a place in it. -/
theorem address_div (l : ℕ) (i : Fin L) : (L * l + i) / L = l := by
  rw [Nat.mul_add_div i.pos, Nat.div_eq_of_lt i.isLt, Nat.add_zero]

namespace Sound

variable {c : Cache L β}

theorem cold (memory : ℕ → β) : Sound (cold memory : Cache L β) := by
  intro l line hline
  exact nomatch hline

theorem load (hc : c.Sound) (l : ℕ) : (c.load l).Sound := by
  intro l' line hline hdirty i
  by_cases h : l' = l
  · subst h
    simp only [Cache.load, Function.update_self, Option.some.injEq] at hline
    subst hline
    simp only [fetch, memory_load] at hdirty ⊢
    cases hold : c.lines l' with
    | none => rfl
    | some line =>
        rw [hold, Option.getD_some] at hdirty
        exact hc l' line hold hdirty i
  · simp only [Cache.load, Function.update_of_ne h] at hline
    exact hc l' line hline hdirty i

/-- Others may change memory wherever there is no copy. -/
theorem store (hc : c.Sound) {memory : ℕ → β}
    (h : ∀ a, c.Cached (a / L) → memory a = c.memory a) : (c.store memory).Sound := by
  intro l line hline hdirty i
  have hcached : c.Cached l := Option.isSome_iff_exists.mpr ⟨line, hline⟩
  rw [show (c.store memory).memory = memory from rfl, h _ (by rw [address_div]; exact hcached)]
  exact hc l line hline hdirty i

end Sound

variable [NeZero L]

/-- The byte that the processor sees at an address. -/
def view (c : Cache L β) (a : ℕ) : β := (c.fetch (a / L)).bytes (Fin.ofNat L a)

/-- Read a byte. -/
def read (c : Cache L β) (a : ℕ) : β × Cache L β := (c.view a, c.load (a / L))

/-- Write a byte. -/
def write (c : Cache L β) (a : ℕ) (v : β) : Cache L β :=
  { c with
    lines := Function.update c.lines (a / L)
      (some ⟨Function.update (c.fetch (a / L)).bytes (Fin.ofNat L a) v, true⟩) }

/-- The byte that memory holds once the line of its address is written back. -/
def written (c : Cache L β) (a : ℕ) : β :=
  match c.lines (a / L) with
  | some line => if line.dirty then line.bytes (Fin.ofNat L a) else c.memory a
  | none => c.memory a

/-- Write back and drop the lines of a set. -/
def flush (c : Cache L β) (s : ℕ → Prop) [DecidablePred s] : Cache L β where
  memory a := if s (a / L) then c.written a else c.memory a
  lines l := if s l then none else c.lines l

/-- Write back and drop every line that overlaps the `n` addresses from `a` on. -/
def wbInv (c : Cache L β) (a n : ℕ) : Cache L β := c.flush (Overlaps L a n)

/-- The place of an address in its line. -/
theorem line_address (a : ℕ) : L * (a / L) + (Fin.ofNat L a : Fin L) = a := by
  simp only [Fin.val_ofNat]
  exact Nat.div_add_mod a L

theorem ofNat_inj_of_line {a a' : ℕ} (hl : a / L = a' / L) :
    Fin.ofNat L a = Fin.ofNat L a' ↔ a = a' := by
  constructor
  · intro h
    rw [← line_address (L := L) a, ← line_address (L := L) a', hl, h]
  · rintro rfl
    rfl

/-- Where there is no copy the processor sees memory. -/
theorem view_of_not_cached {c : Cache L β} {a : ℕ} (h : ¬c.Cached (a / L)) :
    c.view a = c.memory a := by
  simp only [view, fetch, lines_of_not_cached h, Option.getD_none, line_address]

@[simp] theorem view_cold (memory : ℕ → β) : (cold memory : Cache L β).view = memory := by
  ext a
  exact view_of_not_cached (not_cached_cold _ _)

@[simp] theorem view_load (c : Cache L β) (l : ℕ) : (c.load l).view = c.view := by
  ext a
  simp only [view, fetch_load]

theorem cached_write (c : Cache L β) (a : ℕ) (v : β) (l : ℕ) :
    (c.write a v).Cached l ↔ c.Cached l ∨ l = a / L := by
  by_cases h : l = a / L
  · subst h
    simp [Cached, write]
  · simp [Cached, write, h]

@[simp] theorem view_write (c : Cache L β) (a : ℕ) (v : β) :
    (c.write a v).view = Function.update c.view a v := by
  ext a'
  by_cases hl : a' / L = a / L
  · simp only [view, fetch, write, hl, Function.update_self, Option.getD_some]
    by_cases ha : a' = a
    · subst ha
      simp only [Function.update_self]
    · rw [Function.update_of_ne ((ofNat_inj_of_line hl).not.mpr ha), Function.update_of_ne ha]
      simp only [view, fetch, hl]
  · have ha : a' ≠ a := fun h => hl (by rw [h])
    simp only [view, fetch, write, Function.update_of_ne hl, Function.update_of_ne ha]

theorem cached_flush (c : Cache L β) (s : ℕ → Prop) [DecidablePred s] (l : ℕ) :
    (c.flush s).Cached l ↔ c.Cached l ∧ ¬s l := by
  by_cases h : s l
  · simp [Cached, flush, h]
  · simp [Cached, flush, h]

theorem cached_wbInv (c : Cache L β) (a n l : ℕ) :
    (c.wbInv a n).Cached l ↔ c.Cached l ∧ ¬Overlaps L a n l :=
  cached_flush c _ l

/-- Memory behind the lines of a store keeps its contents only where it has to. -/
theorem view_store (c : Cache L β) (memory : ℕ → β) (a : ℕ) :
    (c.store memory).view a = if c.Cached (a / L) then c.view a else memory a := by
  split
  · next h =>
      obtain ⟨line, hline⟩ := Option.isSome_iff_exists.mp h
      simp only [view, fetch, store, hline, Option.getD_some]
  · next h => exact view_of_not_cached (c := c.store memory) h

/-- A byte of which there is no copy can be written behind the cache. -/
theorem view_store_update {c : Cache L β} {a : ℕ} (h : ¬c.Cached (a / L)) (v : β) :
    (c.store (Function.update c.memory a v)).view = Function.update c.view a v := by
  ext a'
  rw [view_store]
  split
  · next hcached =>
      have ha : a' ≠ a := by
        rintro rfl
        exact h hcached
      rw [Function.update_of_ne ha]
  · next hcached =>
      by_cases ha : a' = a
      · subst ha
        rw [Function.update_self, Function.update_self]
      · rw [Function.update_of_ne ha, Function.update_of_ne ha, view_of_not_cached hcached]

namespace Sound

variable {c : Cache L β}

/-- A line that is written back puts into memory what the processor sees. -/
theorem written (hc : c.Sound) (a : ℕ) : c.written a = c.view a := by
  simp only [Cache.written, view, fetch]
  split
  · next line hline =>
      rw [hline, Option.getD_some]
      split
      · rfl
      · next hdirty =>
          rw [hc _ _ hline (by simpa using hdirty), line_address]
  · next hline => simp only [hline, Option.getD_none, line_address]

theorem view_flush (hc : c.Sound) (s : ℕ → Prop) [DecidablePred s] :
    (c.flush s).view = c.view := by
  ext a
  by_cases h : s (a / L)
  · rw [view_of_not_cached (by simp [cached_flush, h])]
    simp only [flush, h, if_true, hc.written]
  · by_cases hcached : c.Cached (a / L)
    · obtain ⟨line, hline⟩ := Option.isSome_iff_exists.mp hcached
      simp only [view, fetch, flush, h, if_false, hline, Option.getD_some]
    · rw [view_of_not_cached hcached, view_of_not_cached (by simp [cached_flush, hcached])]
      simp only [flush, h, if_false]

theorem flush (hc : c.Sound) (s : ℕ → Prop) [DecidablePred s] : (c.flush s).Sound := by
  intro l line hline hdirty i
  by_cases h : s l
  · simp [Cache.flush, h] at hline
  · simp only [Cache.flush, h, if_false] at hline
    simp only [Cache.flush, address_div, h, if_false]
    exact hc l line hline hdirty i

theorem write (hc : c.Sound) (a : ℕ) (v : β) : (c.write a v).Sound := by
  intro l line hline hdirty i
  by_cases h : l = a / L
  · subst h
    simp only [Cache.write, Function.update_self, Option.some.injEq] at hline
    subst hline
    exact nomatch hdirty
  · simp only [Cache.write, Function.update_of_ne h] at hline
    exact hc l line hline hdirty i

theorem view_wbInv (hc : c.Sound) (a n : ℕ) : (c.wbInv a n).view = c.view :=
  hc.view_flush _

theorem wbInv (hc : c.Sound) (a n : ℕ) : (c.wbInv a n).Sound := hc.flush _

end Sound

end Cache

end Libdce.Foundation.WriteBackCache
