import Libdce.Foundation.Bytes

/-!
# A heap behind an allocator

A heap is a set of live blocks, a byte memory, and the list of what the allocator
was asked to do. The allocator is a parameter: it may refuse any request, and may
use memory outside the live blocks as it likes. It is sound when the blocks it
grants are disjoint from the live ones and it leaves the contents of live blocks
alone.

## Implementation notes

A block does not reach the end of the address space, so the address behind it is
an address too. The allocator sees the whole history of the heap, so any pattern
of refusals is the pattern of some allocator.
-/

namespace Libdce.Foundation.Allocation

open Bytes

/-- The addresses from `start` on. -/
structure Extent where
  start : ℕ
  len : ℕ

namespace Extent

/-- The address belongs to the extent. -/
def Holds (e : Extent) (a : ℕ) : Prop := e.start ≤ a ∧ a < e.start + e.len

/-- Two extents have no address in common. -/
def Apart (e e' : Extent) : Prop := ∀ a, e.Holds a → ¬e'.Holds a

/-- One extent lies in another. -/
def Within (e f : Extent) : Prop := f.start ≤ e.start ∧ e.start + e.len ≤ f.start + f.len

instance (e f : Extent) : Decidable (e.Within f) :=
  inferInstanceAs (Decidable (f.start ≤ e.start ∧ e.start + e.len ≤ f.start + f.len))

variable {e e' f f' : Extent}

theorem Apart.symm (h : e.Apart e') : e'.Apart e := fun a ha ha' => h a ha' ha

theorem Within.holds (h : e.Within f) {a : ℕ} (ha : e.Holds a) : f.Holds a :=
  ⟨h.1.trans ha.1, ha.2.trans_le h.2⟩

theorem Apart.within (h : f.Apart f') (he : e.Within f) (he' : e'.Within f') : e.Apart e' :=
  fun a ha ha' => h a (he.holds ha) (he'.holds ha')

theorem apart_iff : e.Apart e' ↔
    e.len = 0 ∨ e'.len = 0 ∨ e.start + e.len ≤ e'.start ∨ e'.start + e'.len ≤ e.start := by
  constructor
  · intro h
    have hlo := h e.start
    have hlo' := h e'.start
    simp only [Holds] at hlo hlo'
    omega
  · intro h a ha ha'
    simp only [Holds] at ha ha'
    omega

/-- Extents one behind the other are apart. -/
theorem apart_of_le (h : e.start + e.len ≤ e'.start) : e.Apart e' :=
  apart_iff.mpr (Or.inr (Or.inr (Or.inl h)))

instance (e e' : Extent) : Decidable (e.Apart e') := decidable_of_iff _ apart_iff.symm

/-- Only an empty extent is apart from itself. -/
theorem not_apart_self (h : 0 < e.len) : ¬e.Apart e := by
  intro hself
  have hstart : e.Holds e.start := ⟨le_rfl, Nat.lt_add_of_pos_right h⟩
  exact hself _ hstart hstart

end Extent

/-- What the allocator hands out. -/
structure Block where
  ptr : BitVec 32
  size : BitVec 32
  deriving DecidableEq, Repr

namespace Block

variable (b : Block)

/-- The addresses of a block. -/
def extent : Extent := ⟨b.ptr.toNat, b.size.toNat⟩

/-- The address behind the block is an address, and the block is not at zero. -/
def Fits : Prop := b.ptr ≠ 0 ∧ b.ptr.toNat + b.size.toNat < 2 ^ 32

instance : Decidable b.Fits := inferInstanceAs (Decidable (_ ∧ _))

end Block

/-- What the allocator was asked to do. -/
inductive Event where
  | alloc (b : Block)
  | refused
  | free (b : Block)
  deriving DecidableEq, Repr

/-- A heap and its history. -/
structure Heap where
  live : Finset Block
  mem : Buffer
  events : List Event

/-- A heap on which nothing has happened. -/
def Heap.empty : Heap := ⟨∅, fun _ => 0, []⟩

/-- Where a block is granted, zero for nowhere, and what becomes of memory when a
block is granted and when it is freed. -/
structure Allocator where
  alloc : Heap → BitVec 32 → BitVec 32 → BitVec 32 × Buffer
  free : Heap → Block → Buffer

namespace Allocator

variable (A : Allocator)

/-- Ask for a block. -/
def allocate (heap : Heap) (size align : BitVec 32) : BitVec 32 × Heap :=
  let (ptr, mem) := A.alloc heap size align
  if ptr = 0 then (0, ⟨heap.live, mem, heap.events ++ [.refused]⟩)
  else (ptr, ⟨insert ⟨ptr, size⟩ heap.live, mem, heap.events ++ [.alloc ⟨ptr, size⟩]⟩)

/-- Give a block back. -/
def release (heap : Heap) (b : Block) : Heap :=
  ⟨heap.live.erase b, A.free heap b, heap.events ++ [.free b]⟩

/-- The allocator grants blocks apart from the live ones and leaves the contents of
live blocks alone. -/
structure Sound : Prop where
  fresh : ∀ heap size align, (A.alloc heap size align).1 ≠ 0 →
    Block.Fits ⟨(A.alloc heap size align).1, size⟩ ∧
      ∀ b ∈ heap.live, b.extent.Apart (Block.extent ⟨(A.alloc heap size align).1, size⟩)
  alloc_keeps : ∀ heap size align, ∀ b ∈ heap.live, ∀ a, b.extent.Holds a →
    (A.alloc heap size align).2 a = heap.mem a
  free_keeps : ∀ heap, ∀ b ∈ heap.live, ∀ b' ∈ heap.live, b' ≠ b → ∀ a, b'.extent.Holds a →
    A.free heap b a = heap.mem a

/-- Blocks are granted at multiples of the alignment asked for. -/
def Aligned : Prop :=
  ∀ heap size align, (A.alloc heap size align).1 ≠ 0 → align ≠ 0 →
    align.toNat ∣ (A.alloc heap size align).1.toNat

variable {A} {heap heap' : Heap} {size align ptr : BitVec 32}

/-- The two ways a request can end. -/
theorem allocate_cases (h : A.allocate heap size align = (ptr, heap')) :
    (ptr = 0 ∧ heap'.live = heap.live ∧ heap'.events = heap.events ++ [.refused]) ∨
      (ptr ≠ 0 ∧ ptr = (A.alloc heap size align).1 ∧
        heap'.live = insert ⟨ptr, size⟩ heap.live ∧
        heap'.events = heap.events ++ [.alloc ⟨ptr, size⟩]) := by
  unfold allocate at h
  dsimp only at h
  split at h
  · injection h with hptr hheap
    subst hptr hheap
    exact Or.inl ⟨rfl, rfl, rfl⟩
  · next hne =>
      injection h with hptr hheap
      subst hptr hheap
      exact Or.inr ⟨hne, rfl, rfl, rfl⟩

/-- Either way live blocks keep their contents. -/
theorem Sound.allocate_keeps (hA : A.Sound) (h : A.allocate heap size align = (ptr, heap'))
    {b : Block} (hb : b ∈ heap.live) {a : ℕ} (ha : b.extent.Holds a) : heap'.mem a = heap.mem a := by
  have hkeep := hA.alloc_keeps heap size align b hb a ha
  unfold allocate at h
  dsimp only at h
  split at h
  · injection h with _ hheap
    rw [← hheap]
    exact hkeep
  · injection h with _ hheap
    rw [← hheap]
    exact hkeep

end Allocator

/-- The live blocks after some events; a block that is not live cannot be freed. -/
def replay : Finset Block → List Event → Option (Finset Block)
  | live, [] => some live
  | live, .alloc b :: es => replay (insert b live) es
  | live, .refused :: es => replay live es
  | live, .free b :: es => if b ∈ live then replay (live.erase b) es else none

theorem replay_append {live live' : Finset Block} {es es' : List Event}
    (h : replay live es = some live') : replay live (es ++ es') = replay live' es' := by
  induction es generalizing live with
  | nil =>
      obtain rfl := Option.some.inj h
      rfl
  | cons e es ih =>
      cases e with
      | alloc b => exact ih h
      | refused => exact ih h
      | free b =>
          by_cases hb : b ∈ live
          · simp only [replay, List.cons_append, if_pos hb] at h ⊢
            exact ih h
          · simp only [replay, if_neg hb, reduceCtorEq] at h

/-- What has happened between two states of a heap: no block was freed that was not
live, and some blocks have kept their contents. -/
structure Evolves (kept : Finset Block) (heap heap' : Heap) : Prop where
  events : ∃ es, heap'.events = heap.events ++ es ∧ replay heap.live es = some heap'.live
  keeps : ∀ b ∈ kept, ∀ a, b.extent.Holds a → heap'.mem a = heap.mem a

namespace Evolves

variable {A : Allocator} {kept : Finset Block} {heap heap' heap'' : Heap}

theorem refl (kept : Finset Block) (heap : Heap) : Evolves kept heap heap :=
  ⟨⟨[], (List.append_nil _).symm, rfl⟩, fun _ _ _ _ => rfl⟩

theorem trans (h : Evolves kept heap heap') (h' : Evolves kept heap' heap'') :
    Evolves kept heap heap'' := by
  obtain ⟨es, hevents, hreplay⟩ := h.events
  obtain ⟨es', hevents', hreplay'⟩ := h'.events
  refine ⟨⟨es ++ es', ?_, ?_⟩, ?_⟩
  · rw [hevents', hevents, List.append_assoc]
  · rw [replay_append hreplay, hreplay']
  · intro b hb a ha
    rw [h'.keeps b hb a ha, h.keeps b hb a ha]

theorem mono {kept' : Finset Block} (h : Evolves kept heap heap') (hsub : kept' ⊆ kept) :
    Evolves kept' heap heap' := ⟨h.events, fun b hb => h.keeps b (hsub hb)⟩

/-- Memory may be written outside the blocks that keep their contents. -/
theorem write (h : Evolves kept heap heap') {mem : Buffer}
    (hmem : ∀ b ∈ kept, ∀ a, b.extent.Holds a → mem a = heap'.mem a) :
    Evolves kept heap { heap' with mem } :=
  ⟨h.events, fun b hb a ha => (hmem b hb a ha).trans (h.keeps b hb a ha)⟩

theorem allocate (hA : A.Sound) {size align ptr : BitVec 32}
    (h : A.allocate heap size align = (ptr, heap')) (hkept : kept ⊆ heap.live) :
    Evolves kept heap heap' := by
  refine ⟨?_, fun b hb a ha => hA.allocate_keeps h (hkept hb) ha⟩
  rcases Allocator.allocate_cases h with ⟨-, hlive, hevents⟩ | ⟨-, -, hlive, hevents⟩
  · exact ⟨_, hevents, congrArg some hlive.symm⟩
  · exact ⟨_, hevents, congrArg some hlive.symm⟩

theorem release (hA : A.Sound) {b : Block} (hb : b ∈ heap.live) (hkept : kept ⊆ heap.live.erase b) :
    Evolves kept heap (A.release heap b) := by
  refine ⟨⟨[.free b], rfl, if_pos hb⟩, ?_⟩
  intro b' hb' a ha
  obtain ⟨hne, hlive⟩ := Finset.mem_erase.mp (hkept hb')
  exact hA.free_keeps heap b hb b' hlive hne a ha

end Evolves

/-- The first free address behind all live blocks. -/
def Heap.top (heap : Heap) : ℕ := heap.live.sup fun b => b.ptr.toNat + b.size.toNat

/-- The simplest allocator: it grants the next multiple of the alignment behind all
live blocks. -/
def bump : Allocator where
  alloc heap size align :=
    let step := if align = 0 then 1 else align.toNat
    let place := (heap.top / step + 1) * step
    (if place + size.toNat < 2 ^ 32 then BitVec.ofNat 32 place else 0, heap.mem)
  free heap _ := heap.mem

section Bump

variable {heap : Heap} {size align : BitVec 32}

/-- A block that is granted is granted at the next multiple. -/
theorem toNat_bump (h : (bump.alloc heap size align).1 ≠ 0) :
    (bump.alloc heap size align).1.toNat =
      (heap.top / (if align = 0 then 1 else align.toNat) + 1) *
        (if align = 0 then 1 else align.toNat) ∧
    (bump.alloc heap size align).1.toNat + size.toNat < 2 ^ 32 := by
  dsimp only [bump] at h ⊢
  generalize (heap.top / (if align = 0 then 1 else align.toNat) + 1) *
    (if align = 0 then 1 else align.toNat) = place at h ⊢
  by_cases hfits : place + size.toNat < 2 ^ 32
  · rw [if_pos hfits, BitVec.toNat_ofNat, Nat.mod_eq_of_lt (by omega)]
    exact ⟨rfl, hfits⟩
  · exact absurd (if_neg hfits) h

theorem bump_sound : bump.Sound where
  fresh heap size align h := by
    obtain ⟨hplace, hfits⟩ := toNat_bump h
    refine ⟨⟨h, hfits⟩, ?_⟩
    intro b hb
    have htop : b.ptr.toNat + b.size.toNat ≤ heap.top :=
      Finset.le_sup (f := fun b : Block => b.ptr.toNat + b.size.toNat) hb
    have hstep : 0 < if align = 0 then 1 else align.toNat := by
      split
      · exact Nat.one_pos
      · next hne => exact Nat.pos_of_ne_zero fun h0 => hne (BitVec.eq_of_toNat_eq h0)
    have hnext := Nat.lt_mul_of_div_lt (Nat.lt_succ_self (heap.top / _)) hstep
    rw [← hplace] at hnext
    exact Extent.apart_of_le (htop.trans hnext.le)
  alloc_keeps _ _ _ _ _ _ _ := rfl
  free_keeps _ _ _ _ _ _ _ _ := rfl

theorem bump_aligned : bump.Aligned := by
  intro heap size align h hne
  rw [(toNat_bump h).1, if_neg hne]
  exact Nat.dvd_mul_left _ _

end Bump

end Libdce.Foundation.Allocation
