import Libdce.Firmware.TiledMemory

/-!
# Handles for tiled memory

A handle takes two blocks from the heap: one for the buffer and one for the handle
itself. `freeHandles` computes the size of the buffer again, from the arguments as
they are by then, but the functions below it go by the headers of the blocks and do
not look at that size.

## Implementation notes

How a handle is stored is a parameter. What is relied on is that storing it writes
no more than the handle, and that `memoryBaseAddress` is found again as long as
nobody writes into the handle.
-/

namespace Libdce.Firmware

open Foundation.Bytes Foundation.Allocation

/-- How `handle->memoryBaseAddress` is read from memory. -/
structure HandleLayout.Reader (layout : HandleLayout) where
  base : Word → Buffer → Word
  store_outside : ∀ handle contents mem a,
    a < handle.toNat ∨ handle.toNat + layout.size.toNat ≤ a →
      layout.store handle contents mem a = mem a
  base_congr : ∀ handle mem mem',
    (∀ a, handle.toNat ≤ a → a < handle.toNat + layout.size.toNat → mem' a = mem a) →
      base handle mem' = base handle mem
  base_store : ∀ handle contents mem,
    base handle (layout.store handle contents mem) = contents.memoryBaseAddress

/-- `freeHandles`. -/
def freeHandles (A : Allocator) {layout : HandleLayout} (reader : layout.Reader) (handle : Word)
    (args : TiledArgs) (heap : Heap) : Heap :=
  let heap := freeRes A (reader.base handle heap.mem) args.size heap
  freeRes A handle layout.size heap

section Requests

variable {A : Allocator} {before : Finset Block} {g : Grant} {gs : List Grant} {heap : Heap}
  {size : Word}

/-- A request for memory on top of others: refused, with nothing changed, or granted. -/
theorem Granted.allocRes_cases (hA : A.Sound) (h : Granted before gs heap)
    (hsize : size.toNat + 8 < 2 ^ 32) :
    (∃ heap', allocRes A size heap = (0, heap') ∧ Granted before gs heap' ∧
      heap'.events = heap.events ++ [.refused]) ∨
    ∃ g heap', allocRes A size heap = (g.record.base, heap') ∧ g.record.size = size ∧
      Granted before (gs ++ [g]) heap' ∧ heap'.events = heap.events ++ [.alloc g.block] := by
  have hfits : MemRec.Fits ⟨size, 4, 0⟩ := hsize
  rcases h.allocRec_cases hA hfits with ⟨heap', hask, hkept, hevents⟩ |
    ⟨g, heap', hask, hanswers, hkept, hevents⟩
  · refine Or.inl ⟨heap', ?_, hkept, hevents⟩
    simp only [allocRes, allocFxn, allocLoop, hask]
    rfl
  · refine Or.inr ⟨g, heap', ?_, hanswers.size, hkept, hevents⟩
    simp only [allocRes, allocFxn, allocLoop, hask]
    rfl

/-- Whatever size is passed, freeing memory frees the block it was granted in. -/
theorem Granted.freeRes_eq (h : Granted before gs heap) (hg : g ∈ gs) (size : Word) :
    freeRes A g.record.base size heap = A.release heap g.block := by
  rw [← g.freeRec_of_kept A (h.headers g hg)]
  rfl

/-- Freeing the memory of two requests, in any order of the sizes passed. -/
theorem Granted.freeRes_two (hA : A.Sound) {buffer handle : Grant} {size size' : Word}
    (h : Granted before [buffer, handle] heap) :
    (freeRes A handle.record.base size' (freeRes A buffer.record.base size heap)).live = before ∧
    (freeRes A handle.record.base size' (freeRes A buffer.record.base size heap)).events =
      heap.events ++ [.free buffer.block, .free handle.block] := by
  have hrest := h.release hA
  have hnone := hrest.release hA
  rw [h.freeRes_eq List.mem_cons_self, hrest.freeRes_eq List.mem_cons_self]
  refine ⟨?_, by simp only [Allocator.release, List.append_assoc, List.singleton_append]⟩
  ext b
  simpa using hnone.live b

/-- A request for a handle, as blocks that are granted. -/
theorem getHandles_cases (hA : A.Sound) (layout : HandleLayout) (reader : layout.Reader)
    {args : TiledArgs} (hargs : args.size.toNat + 8 < 2 ^ 32)
    (hlayout : layout.size.toNat + 8 < 2 ^ 32) (heap : Heap) :
    (∃ heap', getHandles A layout args heap = (none, heap') ∧ heap'.live = heap.live) ∨
    ∃ buffer handle heap', getHandles A layout args heap =
        (some (handle.record.base, ⟨buffer.record.base, buffer.record.base, false, 0⟩), heap') ∧
      buffer.record.size = args.size ∧ handle.record.size = layout.size ∧
      Granted heap.live [buffer, handle] heap' ∧
      reader.base handle.record.base heap'.mem = buffer.record.base ∧
      heap'.events = heap.events ++ [.alloc buffer.block, .alloc handle.block] := by
  rcases (Granted.nil heap).allocRes_cases hA hargs with ⟨heap₁, hask, hkept, -⟩ |
    ⟨buffer, heap₁, hask, hsize, hkept, hevents⟩
  · refine Or.inl ⟨heap₁, ?_, by ext b; simpa using hkept.live b⟩
    simp only [getHandles, hask, if_true]
  · rw [List.nil_append] at hkept
    have hbuffer := buffer.base_ne_zero
    rcases hkept.allocRes_cases hA hlayout with ⟨heap₂, hask', hkept', -⟩ |
      ⟨handle, heap₂, hask', hsize', hkept', hevents'⟩
    · refine Or.inl ⟨freeRes A buffer.record.base args.size heap₂, ?_, ?_⟩
      · simp only [getHandles, hask, hask', if_neg hbuffer, if_true]
      · have hnone := hkept'.release hA
        rw [hkept'.freeRes_eq List.mem_cons_self]
        ext b
        simpa using hnone.live b
    · have hhandle := handle.base_ne_zero
      let contents : TiledHandle := ⟨buffer.record.base, buffer.record.base, false, 0⟩
      refine Or.inr ⟨buffer, handle,
        { heap₂ with mem := layout.store handle.record.base contents heap₂.mem }, ?_, hsize,
        hsize', ?_, ?_, ?_⟩
      · simp only [getHandles, hask, hask', if_neg hbuffer, if_neg hhandle]
        rfl
      · -- the handle is stored in its own payload
        apply hkept'.written
        intro a ha
        have hout := ha handle (List.mem_append_right _ List.mem_cons_self)
        simp only [Extent.Holds, MemRec.payload, hsize'] at hout
        exact reader.store_outside _ _ _ _ (by omega)
      · exact reader.base_store _ _ _
      · simp only [hevents', hevents, List.append_assoc, List.singleton_append]

/-- However the buffer is filled, freeing the handle finds it and frees both. -/
theorem freeHandles_granted (hA : A.Sound) {layout : HandleLayout} (reader : layout.Reader)
    {buffer handle : Grant} (hkept : Granted before [buffer, handle] heap)
    (hsize : handle.record.size = layout.size)
    (hbase : reader.base handle.record.base heap.mem = buffer.record.base) {mem : Buffer}
    (hmem : ∀ a, ¬buffer.record.payload.Holds a → mem a = heap.mem a) (args : TiledArgs) :
    (freeHandles A reader handle.record.base args { heap with mem }).live = before ∧
    (freeHandles A reader handle.record.base args { heap with mem }).events =
      heap.events ++ [.free buffer.block, .free handle.block] := by
  have hwritten : Granted before [buffer, handle] { heap with mem } :=
    hkept.written fun a ha => hmem a (ha buffer List.mem_cons_self)
  have hfound : reader.base handle.record.base mem = buffer.record.base := by
    rw [← hbase]
    apply reader.base_congr
    intro a hlo hhi
    apply hmem
    -- the buffer lies in another block than the handle
    have happart := (List.pairwise_cons.mp hkept.apart).1 handle List.mem_cons_self
    refine (happart.within buffer.payload_within handle.payload_within).symm a ⟨hlo, ?_⟩
    simpa only [MemRec.payload, hsize] using hhi
  simp only [freeHandles, hfound]
  exact hwritten.freeRes_two hA

/-- A request that fails leaves the live blocks as they were. One that succeeds has
two new blocks, and however its buffer is filled, freeing the handle gives back both,
each once and as it was granted, whatever the dimensions are by then. -/
theorem handles_returned (hA : A.Sound) {layout : HandleLayout} (reader : layout.Reader)
    {args : TiledArgs} (hargs : args.requested + 8 < 2 ^ 32)
    (hlayout : layout.size.toNat + 8 < 2 ^ 32) (heap : Heap) :
    (∀ heap', getHandles A layout args heap = (none, heap') → heap'.live = heap.live) ∧
    ∀ handle contents heap', getHandles A layout args heap = (some (handle, contents), heap') →
      ∃ b b' : Block, b ≠ b' ∧ b ∉ heap.live ∧ b' ∉ heap.live ∧
        (∀ x, x ∈ heap'.live ↔ x ∈ heap.live ∨ x = b ∨ x = b') ∧
        heap'.events = heap.events ++ [.alloc b, .alloc b'] ∧
        ∀ mem, (∀ a, ¬Extent.Holds ⟨contents.memoryBaseAddress.toNat, args.requested⟩ a →
          mem a = heap'.mem a) → ∀ args',
            (freeHandles A reader handle args' { heap' with mem }).live = heap.live ∧
            (freeHandles A reader handle args' { heap' with mem }).events =
              heap'.events ++ [.free b, .free b'] := by
  have hexact : args.size.toNat = args.requested := by
    rw [args.toNat_size, Nat.mod_eq_of_lt (by omega)]
  rcases getHandles_cases hA layout reader (hexact ▸ hargs) hlayout heap with
    ⟨heap₁, hnone, hlive⟩ | ⟨buffer, handle, heap₁, hsome, hsize, hsize', hkept, hbase, hevents⟩
  · rw [hnone]
    constructor
    · intro heap' hrun
      injection hrun with _ hheap
      exact hheap ▸ hlive
    · intro handle contents heap' hrun
      exact absurd (congrArg Prod.fst hrun) (Option.some_ne_none _).symm
  · rw [hsome]
    constructor
    · intro heap' hrun
      exact absurd (congrArg Prod.fst hrun) (Option.some_ne_none _)
    · intro handle' contents heap' hrun
      simp only [Prod.mk.injEq, Option.some.injEq] at hrun
      obtain ⟨⟨rfl, rfl⟩, rfl⟩ := hrun
      have hnodup := hkept.nodup
      simp only [List.map_cons, List.map_nil, List.nodup_cons, List.mem_singleton] at hnodup
      refine ⟨buffer.block, handle.block, hnodup.1, hkept.not_before List.mem_cons_self,
        hkept.not_before (List.mem_cons_of_mem _ List.mem_cons_self), ?_, hevents, ?_⟩
      · intro x
        simpa using hkept.live x
      · intro mem hmem args'
        have hpayload : buffer.record.payload = ⟨buffer.record.base.toNat, args.requested⟩ := by
          rw [MemRec.payload, hsize, hexact]
        exact freeHandles_granted hA reader hkept hsize' hbase (hpayload ▸ hmem) args'

/-- A handle of 32 bytes with the address of the buffer in the second word. -/
def wordLayout : HandleLayout :=
  ⟨32, fun handle contents mem => mem.put32 (handle.toNat + 4) contents.memoryBaseAddress⟩

/-- The address is read where it was stored. -/
def wordReader : wordLayout.Reader where
  base handle mem := mem.get32 (handle.toNat + 4)
  store_outside handle contents mem a ha := by
    have hsize : wordLayout.size.toNat = 32 := rfl
    exact Buffer.put32_apply_of_apart _ (by omega)
  base_congr handle mem mem' hmem := by
    have hsize : wordLayout.size.toNat = 32 := rfl
    exact Buffer.get32_congr fun a hlo hhi => hmem a (by omega) (by omega)
  base_store _ _ _ := Buffer.get32_put32 _ _ _

/-- A buffer is requested with one pair of dimensions and given back with another. -/
theorem handles_returned_resized :
    let run := getHandles bump wordLayout ⟨640, 480⟩ .empty
    run.1.isSome = true ∧ run.2.live.card = 2 ∧
    ∀ handle contents, run.1 = some (handle, contents) →
      (freeHandles bump wordReader handle ⟨1, 0⟩ run.2).live = ∅ := by
  refine ⟨by decide +kernel, by decide +kernel, ?_⟩
  intro handle contents hrun
  have hargs : (⟨640, 480⟩ : TiledArgs).requested + 8 < 2 ^ 32 := by decide
  obtain ⟨b, b', -, -, -, -, -, hfree⟩ :=
    (handles_returned bump_sound wordReader hargs (by decide) .empty).2 _ _ _ (Prod.ext hrun rfl)
  exact (hfree _ (fun _ _ => rfl) _).1

end Requests

end Libdce.Firmware
