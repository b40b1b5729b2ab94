import Mathlib

/-!
# Byte buffers, little-endian words and terminated strings

A buffer gives a byte at every offset. A word occupies four bytes, the least
significant first, and a string is stored with a NUL byte behind it. Reads of
one range are not affected by writes to a range that does not meet it.
-/

namespace Libdce.Foundation.Bytes

/-- Eight bits. -/
abbrev Byte := BitVec 8

/-- The bytes from some address on. -/
abbrev Buffer := Nat → Byte

/-- The characters of a string, the terminating NUL left out. -/
structure CString where
  chars : List Byte
  noNul : 0 ∉ chars
  deriving DecidableEq

/-- The string without characters. -/
def CString.empty : CString := ⟨[], List.not_mem_nil⟩

/-- The first `n` characters. -/
def CString.cut (s : CString) (n : Nat) : CString :=
  ⟨s.chars.take n, fun h => s.noNul (List.mem_of_mem_take h)⟩

theorem CString.cut_of_le {s : CString} {n : Nat} (h : s.chars.length ≤ n) : s.cut n = s := by
  obtain ⟨chars, hchars⟩ := s
  simp only [cut, List.take_of_length_le h]

namespace Buffer

/-- The word stored at an offset. -/
def get32 (b : Buffer) (i : Nat) : BitVec 32 := b (i + 3) ++ b (i + 2) ++ b (i + 1) ++ b i

/-- Store a word at an offset. -/
def put32 (b : Buffer) (i : Nat) (w : BitVec 32) : Buffer := fun j =>
  if i ≤ j ∧ j < i + 4 then w.extractLsb' (8 * (j - i)) 8 else b j

/-- `strncpy(b + i, s, n)`: at most `n` characters, padded with NUL up to `n`. -/
def strncpy (b : Buffer) (i : Nat) (s : CString) (n : Nat) : Buffer := fun j =>
  if i ≤ j ∧ j < i + n then s.chars.getD (j - i) 0 else b j

/-- `memset(b + i, c, n)`. -/
def memset (b : Buffer) (i : Nat) (c : Byte) (n : Nat) : Buffer := fun j =>
  if i ≤ j ∧ j < i + n then c else b j

/-- The `n` bytes of a character array. -/
def field (b : Buffer) (i n : Nat) : List Byte := (List.range n).map fun j => b (i + j)

/-- The bytes from a later one on. -/
def advance (b : Buffer) (i : Nat) : Buffer := fun j => b (i + j)

/-- The string in a character array, if it is terminated there. -/
def string (b : Buffer) (i n : Nat) : Option CString :=
  if 0 ∈ b.field i n then
    some ⟨(b.field i n).takeWhile (· ≠ 0), fun h => by simpa using List.mem_takeWhile_imp h⟩
  else none

/-- Two ranges of bytes have none in common. -/
def Apart (i n j m : Nat) : Prop := i + n ≤ j ∨ j + m ≤ i

instance (i n j m : Nat) : Decidable (Apart i n j m) :=
  inferInstanceAs (Decidable (i + n ≤ j ∨ j + m ≤ i))

variable {b : Buffer} {i j n m : Nat}

theorem get32_congr {b' : Buffer} (h : ∀ k, i ≤ k → k < i + 4 → b' k = b k) :
    b'.get32 i = b.get32 i := by
  simp only [get32]
  rw [h i (by omega) (by omega), h (i + 1) (by omega) (by omega), h (i + 2) (by omega) (by omega),
    h (i + 3) (by omega) (by omega)]

theorem field_congr {b' : Buffer} (h : ∀ k, i ≤ k → k < i + n → b' k = b k) :
    b'.field i n = b.field i n := by
  apply List.map_congr_left
  intro k hk
  exact h _ (by omega) (by have := List.mem_range.mp hk; omega)

theorem put32_apply_of_apart (w : BitVec 32) {k : Nat} (h : k < i ∨ i + 4 ≤ k) :
    b.put32 i w k = b k :=
  if_neg (by omega)

theorem strncpy_apply_of_apart (s : CString) {k : Nat} (h : k < i ∨ i + n ≤ k) :
    b.strncpy i s n k = b k :=
  if_neg (by omega)

@[simp] theorem get32_put32 (b : Buffer) (i : Nat) (w : BitVec 32) : (b.put32 i w).get32 i = w := by
  have byte : ∀ k < 4, b.put32 i w (i + k) = w.extractLsb' (8 * k) 8 := by
    intro k hk
    simp only [put32, Nat.add_sub_cancel_left]
    exact if_pos (by omega)
  have lowest := byte 0 (by omega)
  simp only [get32, byte 3 (by omega), byte 2 (by omega), byte 1 (by omega), Nat.add_zero] at lowest ⊢
  rw [lowest]
  ext k hk
  simp only [BitVec.getElem_append, BitVec.getElem_extractLsb']
  grind

theorem get32_put32_of_apart (w : BitVec 32) (h : Apart i 4 j 4) :
    (b.put32 i w).get32 j = b.get32 j := by
  apply get32_congr
  intro k hlo hhi
  exact put32_apply_of_apart w (by unfold Apart at h; omega)

theorem get32_strncpy_of_apart (s : CString) (h : Apart i n j 4) :
    (b.strncpy i s n).get32 j = b.get32 j := by
  apply get32_congr
  intro k hlo hhi
  exact strncpy_apply_of_apart s (by unfold Apart at h; omega)

theorem get32_memset_of_apart (c : Byte) (h : Apart i n j 4) :
    (b.memset i c n).get32 j = b.get32 j := by
  apply get32_congr
  intro k hlo hhi
  exact if_neg (by unfold Apart at h; omega)

theorem string_put32_of_apart (w : BitVec 32) (h : Apart i 4 j n) :
    (b.put32 i w).string j n = b.string j n := by
  have hfield : (b.put32 i w).field j n = b.field j n := by
    apply field_congr
    intro k hlo hhi
    exact put32_apply_of_apart w (by unfold Apart at h; omega)
  simp only [string, hfield]

/-- What `strncpy` leaves in its target: the string, then NUL bytes. -/
theorem field_strncpy (s : CString) (hs : s.chars.length ≤ n) :
    (b.strncpy i s n).field i n = s.chars ++ List.replicate (n - s.chars.length) 0 := by
  apply List.ext_getElem
  · simp only [field, List.length_map, List.length_range, List.length_append, List.length_replicate]
    omega
  · intro k hk _
    have hk' : k < n := by simpa [field] using hk
    simp only [field, List.getElem_map, List.getElem_range, strncpy, Nat.add_sub_cancel_left]
    rw [if_pos (by omega), List.getD_eq_getElem?_getD, List.getElem_append]
    split
    · next hlt => rw [List.getElem?_eq_getElem hlt, Option.getD_some]
    · next hge => rw [List.getElem?_eq_none (by omega), Option.getD_none, List.getElem_replicate]

theorem field_add (b : Buffer) (i n m : Nat) :
    b.field i (n + m) = b.field i n ++ b.field (i + n) m := by
  simp [field, List.range_add, Nat.add_assoc]

theorem length_field (b : Buffer) (i n : Nat) : (b.field i n).length = n := by
  simp [field]

theorem field_advance (b : Buffer) (i j n : Nat) : (b.advance i).field j n = b.field (i + j) n := by
  simp [field, advance, Nat.add_assoc]

/-- A string is found in an array that begins with it and a NUL behind it. -/
theorem string_of_field_append {cs rest : List Byte} (hcs : 0 ∉ cs)
    (h : b.field i m = cs ++ 0 :: rest) : b.string i m = some ⟨cs, hcs⟩ := by
  have hne : ∀ c ∈ cs, decide (c ≠ 0) = true := by
    intro c hc
    exact decide_eq_true fun h0 => hcs (h0 ▸ hc)
  have htake : (cs ++ 0 :: rest).takeWhile (fun c => decide (c ≠ 0)) = cs := by
    rw [List.takeWhile_append_of_pos hne]
    simp
  simp only [string, h, htake, List.mem_append, List.mem_cons, true_or, or_true, if_true]

/-- A string shorter than the copied range is found again. -/
theorem string_strncpy (s : CString) (hs : s.chars.length < n) (hm : n ≤ m) :
    (b.strncpy i s n).string i m = some s := by
  obtain ⟨d, rfl⟩ := Nat.exists_eq_add_of_le hm
  obtain ⟨e, he⟩ := Nat.exists_eq_add_of_lt hs
  have hpad : n - s.chars.length = e + 1 := by omega
  apply string_of_field_append s.noNul
  calc
    (b.strncpy i s n).field i (n + d) =
        s.chars ++ List.replicate (e + 1) 0 ++ (b.strncpy i s n).field (i + n) d := by
      rw [field_add, field_strncpy s hs.le, hpad]
    _ = s.chars ++ 0 :: (List.replicate e 0 ++ (b.strncpy i s n).field (i + n) d) := by
      rw [List.replicate_succ, List.append_assoc, List.cons_append]

/-- An array that ends with the only byte that can be NUL. -/
theorem string_of_field {cs : List Byte} {c : Byte} (hcs : 0 ∉ cs) (h : b.field i m = cs ++ [c]) :
    b.string i m = if c = 0 then some ⟨cs, hcs⟩ else none := by
  by_cases hc : c = 0
  · subst hc
    rw [if_pos rfl]
    exact string_of_field_append hcs h
  · have hmem : 0 ∉ cs ++ [c] := by
      simp only [List.mem_append, List.mem_singleton, not_or]
      exact ⟨hcs, fun h0 => hc h0.symm⟩
    simp only [string, h, hmem, hc, if_false]

/-- A string of at least the copied length leaves no NUL behind. -/
theorem field_strncpy_of_le (s : CString) (hs : n ≤ s.chars.length) :
    (b.strncpy i s n).field i n = s.chars.take n := by
  apply List.ext_getElem
  · simp only [field, List.length_map, List.length_range, List.length_take]
    omega
  · intro k hk _
    have hk' : k < n := by simpa [field] using hk
    simp only [field, List.getElem_map, List.getElem_range, strncpy, Nat.add_sub_cancel_left,
      List.getElem_take]
    rw [if_pos (by omega), List.getD_eq_getElem?_getD, List.getElem?_eq_getElem (by omega),
      Option.getD_some]

/-- Copying all but the last byte of an array leaves the string cut to that length
there exactly when it is shorter, or the last byte was NUL before. -/
theorem string_strncpy_iff (s : CString) :
    (b.strncpy i s n).string i (n + 1) = some (s.cut n) ↔ s.chars.length < n ∨ b (i + n) = 0 := by
  rcases lt_or_ge s.chars.length n with hlt | hge
  · rw [string_strncpy s hlt (Nat.le_succ n), CString.cut_of_le hlt.le]
    exact iff_of_true rfl (Or.inl hlt)
  · have hlast : (b.strncpy i s n).field (i + n) 1 = [b (i + n)] := by
      simp [field, strncpy]
    have hfield : (b.strncpy i s n).field i (n + 1) = s.chars.take n ++ [b (i + n)] := by
      rw [field_add, field_strncpy_of_le s hge, hlast]
    rw [string_of_field (s.cut n).noNul hfield]
    by_cases hnul : b (i + n) = 0
    · rw [if_pos hnul]
      exact iff_of_true rfl (Or.inr hnul)
    · rw [if_neg hnul]
      exact iff_of_false (by simp) (fun h => h.elim (fun hlt => absurd hlt (by omega)) hnul)

end Buffer

end Libdce.Foundation.Bytes
