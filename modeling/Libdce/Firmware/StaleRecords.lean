import Libdce.Firmware.CodecMemory

/-!
# Records of memory that is gone

`freeFxn` skips records whose `base` is `NULL`, but neither it nor the failure path
of `allocFxn`, which goes through it, ever sets a `base` to `NULL`. A table that had
memory still points to it afterwards, and freeing the table again frees it again.

## Implementation notes

A block whose padded size wraps round may be granted so high up that the address
handed out is zero. Such a record looks like one without memory, which is why the
condition speaks of addresses and not of blocks.
-/

namespace Libdce.Firmware

open Foundation.Bytes Foundation.Allocation

variable (A : Allocator) (memTab : List MemRec) (heap : Heap)

/-- The table and the heap once the memory is gone: after `allocFxn` has failed, or
after `freeFxn` of what `allocFxn` handed out. -/
def leftBehind : List MemRec × Heap :=
  let (ok, memTab', heap') := allocFxn A memTab heap
  (memTab', if ok then freeFxn A memTab' memTab.length heap' else heap')

/-- The block was freed and has not been granted again. -/
def Freed (b : Block) : Prop := .free b ∈ heap.events ∧ b ∉ heap.live

/-- No record points to memory that is gone; its header tells which block it is in. -/
def NoStale : Prop :=
  ∀ r ∈ memTab, r.base ≠ 0 → ∀ b, Freed heap b → ¬r.header.Within b.extent

/-- Freeing the table asks for no block to be freed and leaves the heap alone. -/
def FreesNothing : Prop := freeFxn A memTab memTab.length heap = heap

/-- Up to the end of the table, or the first refusal, no record gets an address. -/
def NoneHandedOut : List MemRec → Heap → Prop
  | [], _ => True
  | r :: todo, heap =>
      match allocRec A r heap with
      | (none, _) => True
      | (some r', heap) => r'.base = 0 ∧ NoneHandedOut todo heap

variable {A memTab heap}

/-- Every record with an address adds one entry to the history. -/
theorem length_events_free (memTab : List MemRec) (heap : Heap) :
    (memTab.foldl (freeRec A) heap).events.length =
      heap.events.length + memTab.countP fun r => r.base ≠ 0 := by
  induction memTab generalizing heap with
  | nil => rfl
  | cons r memTab ih =>
      rw [List.foldl_cons, ih, List.countP_cons]
      simp only [decide_eq_true_eq]
      by_cases hbase : r.base ≠ 0
      · rw [freeRec, if_pos hbase, if_pos hbase, Allocator.release, List.length_append,
          List.length_singleton]
        omega
      · rw [freeRec, if_neg hbase, if_neg hbase, Nat.add_zero]

/-- Freeing a table does nothing exactly when none of its records has an address. -/
theorem freesNothing_iff : FreesNothing A memTab heap ↔ ∀ r ∈ memTab, r.base = 0 := by
  unfold FreesNothing freeFxn
  rw [List.take_length]
  constructor
  · intro hsame
    have hlength := length_events_free (A := A) memTab heap
    rw [hsame] at hlength
    have hnone : memTab.countP (fun r => r.base ≠ 0) = 0 := by omega
    intro r hr
    simpa using List.countP_eq_zero.mp hnone r hr
  · intro hnone
    induction memTab with
    | nil => rfl
    | cons r memTab ih =>
        obtain ⟨hr, hrest⟩ := List.forall_mem_cons.mp hnone
        have hskip : freeRec A heap r = heap := if_neg fun hne => hne hr
        rw [List.foldl_cons, hskip]
        exact ih hrest

/-- What the loop of `allocFxn` leaves in the table. -/
theorem allocLoop_bases {todo : List MemRec} (hnull : ∀ r ∈ todo, r.base = 0)
    (done : List MemRec) :
    (∀ r ∈ (allocLoop A done todo heap).2.1, r.base = 0) ↔
      (∀ r ∈ done, r.base = 0) ∧ NoneHandedOut A todo heap := by
  induction todo generalizing done heap with
  | nil => simp [allocLoop, NoneHandedOut]
  | cons r todo ih =>
      obtain ⟨hr, hrest⟩ := List.forall_mem_cons.mp hnull
      cases hask : allocRec A r heap with
      | mk result heap₁ =>
          cases result with
          | none =>
              simp only [allocLoop, NoneHandedOut, hask, List.forall_mem_append,
                List.forall_mem_cons]
              exact and_congr_right fun _ => iff_of_true ⟨hr, hrest⟩ trivial
          | some r' =>
              simp only [allocLoop, NoneHandedOut, hask]
              rw [ih hrest, List.forall_mem_append, List.forall_mem_singleton, and_assoc]

theorem leftBehind_bases (hnull : ∀ r ∈ memTab, r.base = 0) :
    (∀ r ∈ (leftBehind A memTab heap).1, r.base = 0) ↔ NoneHandedOut A memTab heap := by
  refine (allocLoop_bases hnull []).trans ?_
  simp

/-- The blocks that were granted are gone, and their records are still there. -/
theorem leftBehind_eq (hA : A.Sound) (hfits : ∀ r ∈ memTab, r.Fits) (heap : Heap) :
    ∃ gs rest heap₁, Granted heap.live gs heap₁ ∧ rest ⊆ memTab ∧
      leftBehind A memTab heap =
        (gs.map Grant.record ++ rest, (gs.map Grant.record).foldl (freeRec A) heap₁) := by
  obtain ⟨ok, memTab', heap', hrun⟩ : ∃ ok memTab' heap',
      allocFxn A memTab heap = (ok, memTab', heap') := ⟨_, _, _, rfl⟩
  cases ok with
  | true =>
      obtain ⟨gs, rfl, hall, hgranted, -⟩ := allocLoop_granted hA (.nil heap) hfits hrun
      rw [List.nil_append] at hgranted hrun
      refine ⟨gs, [], heap', hgranted, List.nil_subset _, ?_⟩
      have htake : (gs.map Grant.record).take memTab.length = gs.map Grant.record :=
        List.take_of_length_le (by rw [List.length_map, hall.length_eq])
      simp only [leftBehind, hrun, if_true, freeFxn, htake, List.append_nil]
  | false =>
      obtain ⟨gs, rest, heap₁, hgranted, hrest, rfl, -, rfl⟩ :=
        allocLoop_refused hA (.nil heap) hfits hrun
      rw [List.nil_append] at hgranted hrun
      refine ⟨gs, rest, heap₁, hgranted, hrest, ?_⟩
      simp only [leftBehind, hrun, Bool.false_eq_true, if_false]

/-- A block that was granted is a stale block now. -/
theorem noStale_leftBehind_iff (hA : A.Sound) (hfits : ∀ r ∈ memTab, r.Fits)
    (hnull : ∀ r ∈ memTab, r.base = 0) :
    NoStale (leftBehind A memTab heap).1 (leftBehind A memTab heap).2 ↔
      ∀ r ∈ (leftBehind A memTab heap).1, r.base = 0 := by
  obtain ⟨gs, rest, heap₁, hgranted, hrest, heq⟩ := leftBehind_eq hA hfits heap
  rw [heq]
  constructor
  · intro hclear r hr
    rcases List.mem_append.mp hr with hr' | hr'
    · obtain ⟨g, hg, rfl⟩ := List.mem_map.mp hr'
      obtain ⟨hlive, hevents⟩ := hgranted.freeAll hA
      refine absurd g.header_within (hclear _ hr g.base_ne_zero g.block ⟨?_, ?_⟩)
      · rw [hevents]
        exact List.mem_append_right _ (List.mem_map_of_mem (List.mem_map_of_mem hg))
      · rw [hlive]
        exact hgranted.not_before hg
    · exact hnull r (hrest hr')
  · exact fun hnone r hr hne => absurd (hnone r hr) hne

/-- A record that fits is handed an address with its block. -/
theorem noneHandedOut_iff (hA : A.Sound) (hfits : ∀ r ∈ memTab, r.Fits) :
    NoneHandedOut A memTab heap ↔
      ∀ r ∈ memTab.head?, (A.allocate heap (r.size + r.pad) r.alignment).1 = 0 := by
  cases memTab with
  | nil => simp [NoneHandedOut]
  | cons r memTab =>
      obtain ⟨hr, -⟩ := List.forall_mem_cons.mp hfits
      have hrefused : (allocRec A r heap).1 = none ↔
          (A.allocate heap (r.size + r.pad) r.alignment).1 = 0 := by
        dsimp only [allocRec]
        split
        · next hptr => exact iff_of_true rfl hptr
        · next hptr => exact iff_of_false (Option.some_ne_none _) hptr
      simp only [NoneHandedOut, List.head?_cons, Option.mem_some_iff, forall_eq']
      rw [← hrefused]
      rcases (Granted.nil heap).allocRec_cases hA hr with ⟨heap', hask, -⟩ | ⟨g, heap', hask, -⟩
      · rw [hask]
        exact iff_of_true trivial rfl
      · rw [hask]
        exact iff_of_false (fun hnone => g.base_ne_zero hnone.1) (Option.some_ne_none _)

/-- Once the memory of a table without addresses is gone, no record points to it and
freeing the table again does nothing, exactly when no record was handed an address in
the first place. Where padded sizes are 32-bit numbers the first part alone asks for
this already, and it means that the first request is refused. -/
theorem stale_records_iff (A : Allocator) (memTab : List MemRec) (heap : Heap)
    (hnull : ∀ r ∈ memTab, r.base = 0) :
    (NoStale (leftBehind A memTab heap).1 (leftBehind A memTab heap).2 ∧
        FreesNothing A (leftBehind A memTab heap).1 (leftBehind A memTab heap).2 ↔
      NoneHandedOut A memTab heap) ∧
    (A.Sound → (∀ r ∈ memTab, r.Fits) →
      (NoStale (leftBehind A memTab heap).1 (leftBehind A memTab heap).2 ↔
        NoneHandedOut A memTab heap) ∧
      (NoneHandedOut A memTab heap ↔
        ∀ r ∈ memTab.head?, (A.allocate heap (r.size + r.pad) r.alignment).1 = 0)) := by
  constructor
  · rw [freesNothing_iff, leftBehind_bases hnull]
    apply and_iff_right_of_imp
    intro hnone r hr hne
    exact absurd ((leftBehind_bases hnull).mpr hnone r hr) hne
  · intro hA hfits
    rw [noStale_leftBehind_iff hA hfits hnull, leftBehind_bases hnull]
    exact ⟨Iff.rfl, noneHandedOut_iff hA hfits⟩

/-- A table whose first request no heap can meet. -/
def firstTooLarge : List MemRec := [⟨0xffffffe8, 16, 0⟩, ⟨100, 0, 0⟩]

theorem stale_records_iff_tooLarge :
    NoStale (leftBehind bump firstTooLarge .empty).1 (leftBehind bump firstTooLarge .empty).2 ∧
    FreesNothing bump (leftBehind bump firstTooLarge .empty).1
      (leftBehind bump firstTooLarge .empty).2 := by
  obtain ⟨hiff, hsound⟩ := stale_records_iff bump firstTooLarge .empty (by decide +kernel)
  refine hiff.mpr ((hsound bump_sound (by decide +kernel)).2.mpr ?_)
  decide +kernel

/-- Three buffers that were freed are freed again with the table, and so are those that
were given back because a fourth could not be had. -/
theorem stale_records_freed_twice :
    let three := leftBehind bump threeBuffers .empty
    let four := leftBehind bump fourthTooLarge .empty
    ¬NoStale three.1 three.2 ∧ ¬FreesNothing bump three.1 three.2 ∧
      (freeFxn bump three.1 3 three.2).events.count (.free ⟨1, 108⟩) = 2 ∧
    (allocFxn bump fourthTooLarge .empty).1 = false ∧
      ¬NoStale four.1 four.2 ∧ ¬FreesNothing bump four.1 four.2 ∧
      (freeFxn bump four.1 4 four.2).events.count (.free ⟨1, 108⟩) = 2 := by
  intro three four
  have hthree : (freeFxn bump three.1 3 three.2).events.count (.free ⟨1, 108⟩) = 2 := by
    decide +kernel
  have hfour : (freeFxn bump four.1 4 four.2).events.count (.free ⟨1, 108⟩) = 2 := by
    decide +kernel
  have hstale : (.free ⟨1, 108⟩ ∈ three.2.events ∧ ⟨1, 108⟩ ∉ three.2.live) ∧
      .free ⟨1, 108⟩ ∈ four.2.events ∧ ⟨1, 108⟩ ∉ four.2.live := by
    decide +kernel
  refine ⟨?_, ?_, hthree, by decide +kernel, ?_, ?_, hfour⟩
  · intro hclear
    exact hclear ⟨100, 0, 9⟩ (by decide +kernel) (by decide) ⟨1, 108⟩ hstale.1 (by decide)
  · intro hsame
    have hcount := congrArg (fun heap => heap.events.count (.free ⟨1, 108⟩)) hsame
    exact absurd (hthree.symm.trans hcount) (by decide +kernel)
  · intro hclear
    exact hclear ⟨100, 0, 9⟩ (by decide +kernel) (by decide) ⟨1, 108⟩ hstale.2 (by decide)
  · intro hsame
    have hcount := congrArg (fun heap => heap.events.count (.free ⟨1, 108⟩)) hsame
    exact absurd (hfour.symm.trans hcount) (by decide +kernel)

end Libdce.Firmware
