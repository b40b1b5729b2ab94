import Libdce.Firmware.CodecMemory

/-!
# Tiled memory from the heap

The resource manager for tiled memory has no tiler: it takes its buffers, and the
handles that describe them, from the heap with the functions that serve the codecs.
The size of a buffer is computed from the dimensions in 32 bits.

## Implementation notes

How large a handle is and how it is stored is not part of the sources, nor are the
constants it is filled with; a layout stands for the first and the handle is the
record of its addresses.
-/

namespace Libdce.Firmware

open Foundation.Bytes Foundation.Allocation

/-- The arguments of a request; they are not negative. -/
structure TiledArgs where
  sizeDim0 : Word
  sizeDim1 : Word
  deriving DecidableEq, Repr

/-- What `getHandles` fills in. -/
structure TiledHandle where
  memoryBaseAddress : Word
  systemSpaceBaseAddress : Word
  isTiledMemory : Bool
  tilerBaseAddress : Word
  deriving DecidableEq, Repr

/-- The size of a handle and how it is stored at an address. -/
structure HandleLayout where
  size : Word
  store : Word → TiledHandle → Buffer → Buffer

/-- The size that `getHandles` computes. -/
def TiledArgs.size (args : TiledArgs) : Word :=
  if args.sizeDim1 ≠ 0 then args.sizeDim0 * args.sizeDim1 else args.sizeDim0

/-- The number of bytes asked for. -/
def TiledArgs.requested (args : TiledArgs) : ℕ :=
  if args.sizeDim1 ≠ 0 then args.sizeDim0.toNat * args.sizeDim1.toNat else args.sizeDim0.toNat

section Code

variable (A : Allocator)

/-- `allocRes`. -/
def allocRes (size : Word) (heap : Heap) : Word × Heap :=
  let rec₀ : MemRec := ⟨size, 4, 0⟩
  let (ok, memTab, heap) := allocFxn A [rec₀] heap
  if ok then ((memTab.headD rec₀).base, heap) else (0, heap)

/-- `freeRes`. -/
def freeRes (base size : Word) (heap : Heap) : Heap := freeFxn A [⟨size, 4, base⟩] 1 heap

/-- `getHandles`: the address and the contents of the handle, and the heap. -/
def getHandles (layout : HandleLayout) (args : TiledArgs) (heap : Heap) :
    Option (Word × TiledHandle) × Heap :=
  let (ptr, heap) := allocRes A args.size heap
  if ptr = 0 then (none, heap)
  else
    let (handle, heap) := allocRes A layout.size heap
    if handle = 0 then (none, freeRes A ptr args.size heap)
    else
      let contents : TiledHandle := ⟨ptr, ptr, false, 0⟩
      (some (handle, contents), { heap with mem := layout.store handle contents heap.mem })

end Code

section Requests

variable {A : Allocator} {layout : HandleLayout} {args : TiledArgs} {heap heap' : Heap}
  {size base handle : Word} {contents : TiledHandle}

/-- Memory that is handed out lies eight bytes into the block that was granted. -/
theorem allocRes_granted (hA : A.Sound) (hrun : allocRes A size heap = (base, heap'))
    (hbase : base ≠ 0) :
    ∃ b : Block, b.Fits ∧ b.size = size + 8 ∧ base = b.ptr + 8 ∧
      heap'.live = insert b heap.live ∧ heap'.events = heap.events ++ [.alloc b] := by
  obtain ⟨ptr, heap₁, hask⟩ : ∃ ptr heap₁, A.allocate heap (size + 8) 4 = (ptr, heap₁) :=
    ⟨_, _, rfl⟩
  have hpad : (⟨size, 4, 0⟩ : MemRec).pad = 8 := rfl
  simp only [allocRes, allocFxn, allocLoop, allocRec, hpad, hask] at hrun
  rcases Allocator.allocate_cases hask with ⟨rfl, -, -⟩ | ⟨hptr, hgrant, hlive, hevents⟩
  · simp only [if_true, Bool.false_eq_true, if_false, Prod.mk.injEq] at hrun
    exact absurd hrun.1.symm hbase
  · simp only [if_neg hptr, if_true, List.nil_append, List.headD_cons, Prod.mk.injEq] at hrun
    obtain ⟨rfl, rfl⟩ := hrun
    have hfits := (hA.fresh heap (size + 8) 4 (hgrant ▸ hptr)).1
    rw [← hgrant] at hfits
    exact ⟨⟨ptr, size + 8⟩, hfits, rfl, rfl, hlive, hevents⟩

/-- A request that succeeds was granted two blocks: one for the buffer, one for the
handle. -/
theorem getHandles_granted (hA : A.Sound)
    (hrun : getHandles A layout args heap = (some (handle, contents), heap')) :
    ∃ b b' : Block, b.Fits ∧ b.size = args.size + 8 ∧ contents.memoryBaseAddress = b.ptr + 8 ∧
      b ∈ heap'.live ∧ heap'.events = heap.events ++ [.alloc b, .alloc b'] := by
  obtain ⟨ptr, heap₁, hbuffer⟩ : ∃ ptr heap₁, allocRes A args.size heap = (ptr, heap₁) :=
    ⟨_, _, rfl⟩
  obtain ⟨handle', heap₂, hhandle⟩ : ∃ handle' heap₂,
      allocRes A layout.size heap₁ = (handle', heap₂) := ⟨_, _, rfl⟩
  simp only [getHandles, hbuffer, hhandle] at hrun
  split at hrun
  · simp at hrun
  · next hptr =>
      split at hrun
      · simp at hrun
      · next hne =>
          simp only [Prod.mk.injEq, Option.some.injEq] at hrun
          obtain ⟨⟨-, rfl⟩, rfl⟩ := hrun
          obtain ⟨b, hfits, hsize, hbase, hlive, hevents⟩ := allocRes_granted hA hbuffer hptr
          obtain ⟨b', -, -, -, hlive', hevents'⟩ := allocRes_granted hA hhandle hne
          refine ⟨b, b', hfits, hsize, hbase, ?_, ?_⟩
          · simp [hlive', hlive]
          · simp [hevents', hevents]

/-- The size computed is the number of bytes asked for, modulo what a word holds. -/
theorem TiledArgs.toNat_size (args : TiledArgs) :
    args.size.toNat = args.requested % 2 ^ 32 := by
  unfold size requested
  split
  · exact BitVec.toNat_mul _ _
  · exact (Nat.mod_eq_of_lt args.sizeDim0.isLt).symm

/-- The bytes asked for lie in the block behind the buffer exactly when their number
and the header's eight are a word together. -/
theorem tiled_request_covered_iff (hA : A.Sound)
    (hrun : getHandles A layout args heap = (some (handle, contents), heap')) :
    ∃ b b' : Block, heap'.events = heap.events ++ [.alloc b, .alloc b'] ∧ b ∈ heap'.live ∧
      contents.memoryBaseAddress = b.ptr + 8 ∧
      (Extent.Within ⟨contents.memoryBaseAddress.toNat, args.requested⟩ b.extent ↔
        args.requested + 8 < 2 ^ 32) := by
  obtain ⟨b, b', ⟨-, hfits⟩, hsize, hbase, hlive, hevents⟩ := getHandles_granted hA hrun
  refine ⟨b, b', hevents, hlive, hbase, ?_⟩
  have hgranted : b.size.toNat = (args.requested % 2 ^ 32 + 8) % 2 ^ 32 := by
    rw [hsize, BitVec.toNat_add, args.toNat_size]
    rfl
  have hstart : contents.memoryBaseAddress.toNat = (b.ptr.toNat + 8) % 2 ^ 32 := by
    rw [hbase, BitVec.toNat_add]
    rfl
  simp only [Extent.Within, Block.extent]
  constructor
  · rintro ⟨hlo, hhi⟩
    omega
  · intro hword
    have hexact : b.size.toNat = args.requested + 8 := by
      have hmod : args.requested % 2 ^ 32 = args.requested := Nat.mod_eq_of_lt (by omega)
      rw [hgranted, hmod, Nat.mod_eq_of_lt hword]
    omega

/-- A handle of 32 bytes; its contents are not looked at. -/
def plainLayout : HandleLayout := ⟨32, fun _ _ mem => mem⟩

/-- A small request is covered. -/
theorem tiled_request_covered_small :
    ∃ b ∈ (getHandles bump plainLayout ⟨640, 480⟩ .empty).2.live,
      ∃ base, (getHandles bump plainLayout ⟨640, 480⟩ .empty).1.map (·.2.memoryBaseAddress) = some base ∧
        Extent.Within ⟨base.toNat, 640 * 480⟩ b.extent := by
  obtain ⟨⟨handle, contents⟩, hsome⟩ := Option.isSome_iff_exists.mp
    (show (getHandles bump plainLayout ⟨640, 480⟩ .empty).1.isSome by decide +kernel)
  obtain ⟨b, b', -, hlive, -, hcovered⟩ := tiled_request_covered_iff bump_sound (Prod.ext hsome rfl)
  exact ⟨b, hlive, _, congrArg _ hsome, hcovered.mpr (by decide +kernel)⟩

/-- Sixty-four kilobytes square are granted as a block of eight bytes, all of them
the header; one byte less than four gigabytes is granted as seven bytes. -/
theorem tiled_request_not_covered :
    (getHandles bump plainLayout ⟨65536, 65536⟩ .empty).1.map (·.2.memoryBaseAddress) = some 12 ∧
    ⟨4, 8⟩ ∈ (getHandles bump plainLayout ⟨65536, 65536⟩ .empty).2.live ∧
    (∀ b ∈ (getHandles bump plainLayout ⟨65536, 65536⟩ .empty).2.live,
      ¬Extent.Within ⟨12, 65536 * 65536⟩ b.extent) ∧
    (getHandles bump plainLayout ⟨65537, 65535⟩ .empty).1.map (·.2.memoryBaseAddress) = some 12 ∧
    ⟨4, 7⟩ ∈ (getHandles bump plainLayout ⟨65537, 65535⟩ .empty).2.live ∧
    ∀ b ∈ (getHandles bump plainLayout ⟨65537, 65535⟩ .empty).2.live,
      ¬Extent.Within ⟨12, 65537 * 65535⟩ b.extent := by
  decide +kernel

end Requests

end Libdce.Firmware
