import Libdce.Basic
import Libdce.Foundation.Allocation

/-!
# Memory for codecs

A codec asks for memory with a table of records, each with a size and an
alignment. The platform takes a block from the heap for each of them and keeps
what it must give back later in a header in front of the address it hands out,
inside the block.

## Implementation notes

The heap is the one of the platform, with any sound allocator behind it. A grant
is a record together with the block behind it; the sizes fit by construction.
-/

namespace Libdce.Firmware

open Foundation.Bytes Foundation.Allocation

/-- `IALG_MemRec`; the memory space and the attributes are not read. -/
structure MemRec where
  size : Word
  alignment : Word
  base : Word
  deriving DecidableEq, Repr

/-- The header in front of the memory handed out. -/
structure MemHeader where
  size : Word
  ptr : Word
  deriving DecidableEq, Repr

/-- `P2H`. -/
def p2h (p : Word) : Word := p - 8

/-- The header stored at an address. -/
def memHeader (mem : Buffer) (h : Word) : MemHeader := ⟨mem.get32 h.toNat, mem.get32 (h.toNat + 4)⟩

/-- Store a header at an address. -/
def storeHeader (mem : Buffer) (h : Word) (hdr : MemHeader) : Buffer :=
  (mem.put32 h.toNat hdr.size).put32 (h.toNat + 4) hdr.ptr

@[simp] theorem memHeader_storeHeader (mem : Buffer) (h : Word) (hdr : MemHeader) :
    memHeader (storeHeader mem h hdr) h = hdr := by
  simp only [memHeader, storeHeader, Buffer.get32_put32]
  rw [Buffer.get32_put32_of_apart _ (by unfold Buffer.Apart; omega), Buffer.get32_put32]

theorem storeHeader_apply_of_apart {mem : Buffer} {h : Word} (hdr : MemHeader) {a : ℕ}
    (ha : a < h.toNat ∨ h.toNat + 8 ≤ a) : storeHeader mem h hdr a = mem a := by
  rw [storeHeader, Buffer.put32_apply_of_apart _ (by omega),
    Buffer.put32_apply_of_apart _ (by omega)]

/-- Room for the header that keeps the alignment; the comparison is unsigned. -/
def MemRec.pad (r : MemRec) : Word := if 8 < r.alignment then r.alignment else 8

section Code

variable (A : Allocator)

/-- The body of the loop of `freeFxn`. -/
def freeRec (heap : Heap) (r : MemRec) : Heap :=
  if r.base ≠ 0 then
    let hdr := memHeader heap.mem (p2h r.base)
    A.release heap ⟨hdr.ptr, hdr.size⟩
  else heap

/-- `freeFxn`. -/
def freeFxn (memTab : List MemRec) (n : ℕ) (heap : Heap) : Heap :=
  (memTab.take n).foldl (freeRec A) heap

/-- The body of the loop of `allocFxn`; no record when there is no block. -/
def allocRec (r : MemRec) (heap : Heap) : Option MemRec × Heap :=
  let size := r.size + r.pad
  let (blk, heap) := A.allocate heap size r.alignment
  if blk = 0 then (none, heap)
  else
    let base := blk + r.pad
    (some { r with base }, { heap with mem := storeHeader heap.mem (p2h base) ⟨size, blk⟩ })

/-- The loop of `allocFxn` with some records behind it and some still to do. -/
def allocLoop (done : List MemRec) : List MemRec → Heap → Bool × List MemRec × Heap
  | [], heap => (true, done, heap)
  | r :: todo, heap =>
      match allocRec A r heap with
      | (none, heap) => (false, done ++ r :: todo, freeFxn A (done ++ r :: todo) done.length heap)
      | (some r', heap) => allocLoop (done ++ [r']) todo heap

/-- `allocFxn` of a whole table: the result, the table and the heap afterwards. -/
def allocFxn (memTab : List MemRec) (heap : Heap) : Bool × List MemRec × Heap :=
  allocLoop A [] memTab heap

end Code

namespace MemRec

variable (r : MemRec)

/-- The addresses of the header. -/
def header : Extent := ⟨(p2h r.base).toNat, 8⟩

/-- The addresses the codec may use. -/
def payload : Extent := ⟨r.base.toNat, r.size.toNat⟩

/-- The padded size is a 32-bit number. -/
def Fits : Prop := r.size.toNat + r.pad.toNat < 2 ^ 32

instance : Decidable r.Fits := inferInstanceAs (Decidable (_ < _))

theorem eight_le_pad : 8 ≤ r.pad.toNat := by
  unfold pad
  split
  · next h => exact (BitVec.lt_def.mp h).le
  · exact le_rfl

end MemRec

/-- A record with the block that was granted for it. -/
structure Grant where
  record : MemRec
  block : Block
  size : block.size.toNat = record.size.toNat + record.pad.toNat
  fits : block.Fits
  base : record.base = block.ptr + record.pad

namespace Grant

variable (g : Grant)

theorem base_toNat : g.record.base.toNat = g.block.ptr.toNat + g.record.pad.toNat := by
  have hsize := g.size
  have hfits := g.fits.2
  rw [g.base, BitVec.toNat_add, Nat.mod_eq_of_lt (by omega)]

theorem base_ne_zero : g.record.base ≠ 0 := by
  have hbase := g.base_toNat
  have hpad := g.record.eight_le_pad
  rw [Ne, Word.eq_zero_iff]
  omega

theorem p2h_toNat : (p2h g.record.base).toNat + 8 = g.record.base.toNat := by
  have hbase := g.base_toNat
  have hpad := g.record.eight_le_pad
  unfold p2h
  bv_omega

theorem header_within : g.record.header.Within g.block.extent := by
  have hbase := g.base_toNat
  have hhdr := g.p2h_toNat
  have hpad := g.record.eight_le_pad
  have hsize := g.size
  simp only [Extent.Within, MemRec.header, Block.extent]
  omega

theorem payload_within : g.record.payload.Within g.block.extent := by
  have hbase := g.base_toNat
  have hsize := g.size
  simp only [Extent.Within, MemRec.payload, Block.extent]
  omega

theorem header_apart_payload : g.record.header.Apart g.record.payload :=
  Extent.apart_of_le g.p2h_toNat.le

theorem extent_pos : 0 < g.block.extent.len := by
  have hpad := g.record.eight_le_pad
  have hsize := g.size
  simp only [Block.extent]
  omega

/-- The header tells what was granted. -/
def Kept (mem : Buffer) : Prop := memHeader mem (p2h g.record.base) = ⟨g.block.size, g.block.ptr⟩

variable {g}

theorem Kept.congr {mem mem' : Buffer} (h : g.Kept mem)
    (hmem : ∀ a, g.record.header.Holds a → mem' a = mem a) : g.Kept mem' := by
  have hsize : mem'.get32 (p2h g.record.base).toNat = mem.get32 (p2h g.record.base).toNat :=
    Buffer.get32_congr fun a hlo hhi => hmem a ⟨hlo, by simp only [MemRec.header]; omega⟩
  have hptr : mem'.get32 ((p2h g.record.base).toNat + 4) =
      mem.get32 ((p2h g.record.base).toNat + 4) :=
    Buffer.get32_congr fun a hlo hhi =>
      hmem a ⟨by simp only [MemRec.header]; omega, by simp only [MemRec.header]; omega⟩
  rw [Kept, memHeader, hsize, hptr]
  exact h

/-- Freeing the record frees the block. -/
theorem freeRec_of_kept (A : Allocator) {heap : Heap} (h : g.Kept heap.mem) :
    freeRec A heap g.record = A.release heap g.block := by
  rw [freeRec, if_pos g.base_ne_zero, h]

end Grant

/-- The blocks granted, on top of those that were live before, are live, apart from
each other and from those, and each has its header. -/
structure Granted (before : Finset Block) (gs : List Grant) (heap : Heap) : Prop where
  live : ∀ b, b ∈ heap.live ↔ b ∈ before ∨ b ∈ gs.map Grant.block
  apart : gs.Pairwise fun g g' => g.block.extent.Apart g'.block.extent
  outside : ∀ g ∈ gs, ∀ b ∈ before, g.block.extent.Apart b.extent
  headers : ∀ g ∈ gs, g.Kept heap.mem

namespace Granted

variable {A : Allocator} {before : Finset Block} {g : Grant} {gs : List Grant} {heap : Heap}

theorem nil (heap : Heap) : Granted heap.live [] heap where
  live b := by simp
  apart := List.Pairwise.nil
  outside := by simp
  headers := by simp

theorem mem_live (h : Granted before gs heap) (hg : g ∈ gs) : g.block ∈ heap.live :=
  (h.live g.block).mpr (Or.inr (List.mem_map_of_mem hg))

theorem not_before (h : Granted before gs heap) (hg : g ∈ gs) : g.block ∉ before :=
  fun hb => Extent.not_apart_self g.extent_pos (h.outside g hg g.block hb)

/-- No block is granted twice. -/
theorem nodup (h : Granted before gs heap) : (gs.map Grant.block).Nodup := by
  rw [List.Nodup, List.pairwise_map]
  apply h.apart.imp
  intro g g' happart heq
  rw [← heq] at happart
  exact Extent.not_apart_self g.extent_pos happart

/-- Two grants are one, or their blocks are apart. -/
theorem eq_or_apart (h : Granted before gs heap) {g' : Grant} (hg : g ∈ gs) (hg' : g' ∈ gs) :
    g = g' ∨ g.block.extent.Apart g'.block.extent := by
  have : Std.Symm fun g g' : Grant => g.block.extent.Apart g'.block.extent :=
    ⟨fun _ _ happart => happart.symm⟩
  by_cases heq : g = g'
  · exact Or.inl heq
  · exact Or.inr (h.apart.forall hg hg' heq)

/-- Memory may change where there is no header. -/
theorem congr (h : Granted before gs heap) {heap' : Heap} (hlive : heap'.live = heap.live)
    (hmem : ∀ g ∈ gs, ∀ a, g.record.header.Holds a → heap'.mem a = heap.mem a) :
    Granted before gs heap' where
  live b := by rw [hlive, h.live b]
  apart := h.apart
  outside := h.outside
  headers g hg := (h.headers g hg).congr (hmem g hg)

/-- A codec that keeps to its payloads does no harm. -/
theorem written (h : Granted before gs heap) {mem : Buffer}
    (hmem : ∀ a, (∀ g ∈ gs, ¬g.record.payload.Holds a) → mem a = heap.mem a) :
    Granted before gs { heap with mem } := by
  refine h.congr rfl ?_
  intro g hg a ha
  apply hmem a
  intro g' hg' ha'
  rcases h.eq_or_apart hg hg' with rfl | happart
  · exact g.header_apart_payload a ha ha'
  · exact happart a (g.header_within.holds ha) (g'.payload_within.holds ha')

/-- A fresh block with its header is one more grant. -/
theorem grant (h : Granted before gs heap) {heap' : Heap}
    (hfresh : ∀ b ∈ heap.live, b.extent.Apart g.block.extent)
    (hlive : heap'.live = insert g.block heap.live)
    (hheader : g.Kept heap'.mem)
    (hmem : ∀ b ∈ heap.live, ∀ a, b.extent.Holds a → heap'.mem a = heap.mem a) :
    Granted before (gs ++ [g]) heap' where
  live b := by
    rw [hlive, Finset.mem_insert, h.live, List.map_append, List.mem_append, List.map_singleton,
      List.mem_singleton]
    tauto
  apart := by
    refine List.pairwise_append.mpr ⟨h.apart, List.pairwise_singleton _ _, ?_⟩
    intro g' hg' g'' hg''
    rw [List.mem_singleton.mp hg'']
    exact hfresh g'.block (h.mem_live hg')
  outside g' hg' b hb := by
    rcases List.mem_append.mp hg' with hg' | hg'
    · exact h.outside g' hg' b hb
    · rw [List.mem_singleton.mp hg']
      exact (hfresh b ((h.live b).mpr (Or.inl hb))).symm
  headers g' hg' := by
    rcases List.mem_append.mp hg' with hg' | hg'
    · refine (h.headers g' hg').congr ?_
      exact fun a ha => hmem g'.block (h.mem_live hg') a (g'.header_within.holds ha)
    · rw [List.mem_singleton.mp hg']
      exact hheader

/-- Giving back the first block. -/
theorem release (hA : A.Sound) (h : Granted before (g :: gs) heap) :
    Granted before gs (A.release heap g.block) := by
  obtain ⟨hfirst, hrest⟩ := List.pairwise_cons.mp h.apart
  have hne : ∀ g' ∈ gs, g'.block ≠ g.block := by
    intro g' hg' heq
    have happart := hfirst g' hg'
    rw [heq] at happart
    exact Extent.not_apart_self g.extent_pos happart
  refine ⟨?_, hrest, fun g' hg' => h.outside g' (List.mem_cons_of_mem g hg'), ?_⟩
  · intro b
    have hbefore := h.not_before List.mem_cons_self
    have hnot : g.block ∉ gs.map Grant.block := fun hmem => by
      obtain ⟨g', hg', heq⟩ := List.mem_map.mp hmem
      exact hne g' hg' heq
    rw [Allocator.release, Finset.mem_erase, h.live, List.map_cons, List.mem_cons]
    constructor
    · rintro ⟨hb, hb' | hb' | hb'⟩
      · exact Or.inl hb'
      · exact absurd hb' hb
      · exact Or.inr hb'
    · rintro (hb | hb)
      · exact ⟨fun heq => hbefore (heq ▸ hb), Or.inl hb⟩
      · exact ⟨fun heq => hnot (heq ▸ hb), Or.inr (Or.inr hb)⟩
  · intro g' hg'
    refine (h.headers g' (List.mem_cons_of_mem g hg')).congr ?_
    intro a ha
    exact hA.free_keeps heap g.block (h.mem_live List.mem_cons_self) g'.block
      (h.mem_live (List.mem_cons_of_mem g hg')) (hne g' hg') a (g'.header_within.holds ha)

/-- Freeing every record frees every block, first to last. -/
theorem freeAll (hA : A.Sound) (h : Granted before gs heap) :
    ((gs.map Grant.record).foldl (freeRec A) heap).live = before ∧
      ((gs.map Grant.record).foldl (freeRec A) heap).events =
        heap.events ++ (gs.map Grant.block).map .free := by
  induction gs generalizing heap with
  | nil =>
      refine ⟨?_, (List.append_nil _).symm⟩
      ext b
      simpa using h.live b
  | cons g gs ih =>
      rw [List.map_cons, List.foldl_cons, g.freeRec_of_kept A (h.headers g List.mem_cons_self)]
      obtain ⟨hlive, hevents⟩ := ih (h.release hA)
      refine ⟨hlive, hevents.trans ?_⟩
      simp [Allocator.release]

end Granted

/-- The grant answers a request: the size and the alignment are the ones asked for,
and an allocator that aligns has aligned the block. -/
structure Grant.Answers (A : Allocator) (r : MemRec) (g : Grant) : Prop where
  size : g.record.size = r.size
  alignment : g.record.alignment = r.alignment
  place : A.Aligned → r.alignment ≠ 0 → r.alignment.toNat ∣ g.block.ptr.toNat

section Loop

variable {A : Allocator} {before : Finset Block} {gs : List Grant} {heap heap' : Heap}
  {r : MemRec} {todo memTab' : List MemRec}

/-- One record: refused, with nothing changed, or granted. -/
theorem Granted.allocRec_cases (hA : A.Sound) (h : Granted before gs heap) (hr : r.Fits) :
    (∃ heap', allocRec A r heap = (none, heap') ∧ Granted before gs heap' ∧
      heap'.events = heap.events ++ [.refused]) ∨
    ∃ g heap', allocRec A r heap = (some g.record, heap') ∧ g.Answers A r ∧
      Granted before (gs ++ [g]) heap' ∧ heap'.events = heap.events ++ [.alloc g.block] := by
  obtain ⟨ptr, heap₁, hask⟩ : ∃ ptr heap₁,
      A.allocate heap (r.size + r.pad) r.alignment = (ptr, heap₁) := ⟨_, _, rfl⟩
  have hkeep : ∀ g ∈ gs, ∀ a, g.record.header.Holds a → heap₁.mem a = heap.mem a :=
    fun g hg a ha => hA.allocate_keeps hask (h.mem_live hg) (g.header_within.holds ha)
  rcases Allocator.allocate_cases hask with ⟨rfl, hlive, hevents⟩ | ⟨hptr, hgrant, hlive, hevents⟩
  · refine Or.inl ⟨heap₁, ?_, h.congr hlive hkeep, hevents⟩
    simp only [allocRec, hask, if_true]
  · obtain ⟨hfits, hfresh⟩ := hA.fresh heap (r.size + r.pad) r.alignment (hgrant ▸ hptr)
    have hsize : (r.size + r.pad).toNat = r.size.toNat + r.pad.toNat := by
      rw [BitVec.toNat_add, Nat.mod_eq_of_lt hr]
    rw [← hgrant] at hfits hfresh
    let g : Grant := ⟨{ r with base := ptr + r.pad }, ⟨ptr, r.size + r.pad⟩, hsize, hfits, rfl⟩
    let heap' : Heap :=
      { heap₁ with mem := storeHeader heap₁.mem (p2h g.record.base) ⟨g.block.size, g.block.ptr⟩ }
    have hrun : allocRec A r heap = (some g.record, heap') := by
      simp only [allocRec, hask, if_neg hptr]
      rfl
    have hplace : A.Aligned → r.alignment ≠ 0 → r.alignment.toNat ∣ ptr.toNat := by
      intro haligned hne
      have hdvd := haligned heap (r.size + r.pad) r.alignment (hgrant ▸ hptr) hne
      rwa [← hgrant] at hdvd
    refine Or.inr ⟨g, heap', hrun, ⟨rfl, rfl, hplace⟩, ?_, hevents⟩
    refine h.grant hfresh hlive (memHeader_storeHeader _ _ _) ?_
    intro b hb a ha
    -- The header lies in the new block, so no other block sees it being written.
    have hout : ¬g.record.header.Holds a := fun h' => hfresh b hb a ha (g.header_within.holds h')
    have hstore : heap'.mem a = heap₁.mem a :=
      storeHeader_apply_of_apart _ (by simp only [Extent.Holds, MemRec.header] at hout; omega)
    rw [hstore]
    exact hA.allocate_keeps hask hb ha

/-- The loop is refused a block: all blocks granted before go back, first to last. -/
theorem allocLoop_refused (hA : A.Sound) (h : Granted before gs heap)
    (htodo : ∀ r ∈ todo, r.Fits)
    (hrun : allocLoop A (gs.map Grant.record) todo heap = (false, memTab', heap')) :
    ∃ gs' rest heap₁, Granted before (gs ++ gs') heap₁ ∧ rest ⊆ todo ∧
      memTab' = (gs ++ gs').map Grant.record ++ rest ∧
      heap₁.events = heap.events ++ (gs'.map Grant.block).map .alloc ++ [.refused] ∧
      heap' = ((gs ++ gs').map Grant.record).foldl (freeRec A) heap₁ := by
  induction todo generalizing gs heap with
  | nil => exact absurd (congrArg Prod.fst hrun) (by simp [allocLoop])
  | cons r todo ih =>
      obtain ⟨hr, htodo⟩ := List.forall_mem_cons.mp htodo
      rcases h.allocRec_cases hA hr with ⟨heap₁, hask, hkept, hevents⟩ |
        ⟨g, heap₁, hask, -, hkept, hevents⟩
      · simp only [allocLoop, hask, Prod.mk.injEq, true_and] at hrun
        obtain ⟨rfl, rfl⟩ := hrun
        refine ⟨[], r :: todo, heap₁, ?_, List.Subset.refl _, ?_, ?_, ?_⟩
        · rwa [List.append_nil]
        · rw [List.append_nil]
        · simpa using hevents
        · rw [List.append_nil, freeFxn, List.take_left' rfl]
      · simp only [allocLoop, hask] at hrun
        rw [← List.map_singleton, ← List.map_append] at hrun
        obtain ⟨gs', rest, heap₂, hgranted, hrest, htab, hevents', hfreed⟩ := ih hkept htodo hrun
        rw [List.append_assoc, List.singleton_append] at hgranted htab hfreed
        refine ⟨g :: gs', rest, heap₂, hgranted, List.Subset.trans hrest (List.subset_cons_self _ _), htab,
          ?_, hfreed⟩
        rw [hevents', hevents]
        simp

/-- The loop gets all its blocks. -/
theorem allocLoop_granted (hA : A.Sound) (h : Granted before gs heap)
    (htodo : ∀ r ∈ todo, r.Fits)
    (hrun : allocLoop A (gs.map Grant.record) todo heap = (true, memTab', heap')) :
    ∃ gs', memTab' = (gs ++ gs').map Grant.record ∧ List.Forall₂ (Grant.Answers A) todo gs' ∧
      Granted before (gs ++ gs') heap' ∧
      heap'.events = heap.events ++ (gs'.map Grant.block).map .alloc := by
  induction todo generalizing gs heap with
  | nil =>
      simp only [allocLoop, Prod.mk.injEq, true_and] at hrun
      obtain ⟨rfl, rfl⟩ := hrun
      exact ⟨[], by simp, List.Forall₂.nil, by simpa using h, by simp⟩
  | cons r todo ih =>
      obtain ⟨hr, htodo⟩ := List.forall_mem_cons.mp htodo
      rcases h.allocRec_cases hA hr with ⟨heap₁, hask, hkept, hevents⟩ |
        ⟨g, heap₁, hask, hanswers, hkept, hevents⟩
      · exact absurd (congrArg Prod.fst hrun) (by simp [allocLoop, hask])
      · simp only [allocLoop, hask] at hrun
        rw [← List.map_singleton, ← List.map_append] at hrun
        obtain ⟨gs', htab, hall, hholding, hevents'⟩ := ih hkept htodo hrun
        rw [List.append_assoc, List.singleton_append] at htab hholding
        refine ⟨g :: gs', htab, List.Forall₂.cons hanswers hall, hholding, ?_⟩
        rw [hevents', hevents]
        simp

end Loop

namespace MemRec

variable {r : MemRec}

/-- A codec asks for no alignment or for a power of two. -/
def PowerAligned (r : MemRec) : Prop := r.alignment = 0 ∨ ∃ k, r.alignment.toNat = 2 ^ k

/-- The padding is a multiple of the alignment. -/
theorem PowerAligned.dvd_pad (h : r.PowerAligned) (hne : r.alignment ≠ 0) :
    r.alignment.toNat ∣ r.pad.toNat := by
  unfold pad
  split
  · exact Nat.dvd_refl _
  · next hle =>
      obtain ⟨k, hk⟩ := h.resolve_left hne
      have hk3 : k ≤ 3 := by
        rw [BitVec.lt_def, hk] at hle
        exact (Nat.pow_le_pow_iff_right Nat.one_lt_two).mp (not_lt.mp hle)
      rw [hk]
      exact Nat.pow_dvd_pow 2 hk3

end MemRec

/-- What is handed out is aligned as the block is. -/
theorem Grant.Answers.dvd_base {A : Allocator} {r : MemRec} {g : Grant} (h : g.Answers A r)
    (hA : A.Aligned) (hr : r.PowerAligned) (hne : r.alignment ≠ 0) :
    r.alignment.toNat ∣ g.record.base.toNat := by
  have hpad : g.record.pad = r.pad := by
    rw [MemRec.pad, MemRec.pad, h.alignment]
  rw [g.base_toNat, hpad]
  exact Nat.dvd_add (h.place hA hne) (hr.dvd_pad hne)

section Table

variable {A : Allocator} {heap : Heap} {memTab : List MemRec}

/-- A refused table leaves the live blocks as they were, with every block it had
been granted freed once, as it was granted. A granted table is freed, whatever the
codec wrote into its payloads in between, by freeing exactly the blocks granted,
each once, and then the live blocks are as they were. -/
theorem codec_memory_returned (hA : A.Sound) (hfits : ∀ r ∈ memTab, r.Fits) :
    (∀ memTab' heap', allocFxn A memTab heap = (false, memTab', heap') →
      heap'.live = heap.live ∧
      ∃ blocks : List Block, blocks.Nodup ∧
        heap'.events = heap.events ++ blocks.map .alloc ++ [.refused] ++ blocks.map .free) ∧
    ∀ memTab' heap', allocFxn A memTab heap = (true, memTab', heap') →
      ∃ blocks : List Block, blocks.Nodup ∧ blocks.length = memTab.length ∧
        heap'.events = heap.events ++ blocks.map .alloc ∧
        ∀ mem, (∀ a, (∀ r ∈ memTab', ¬r.payload.Holds a) → mem a = heap'.mem a) →
          (freeFxn A memTab' memTab.length { heap' with mem }).live = heap.live ∧
          (freeFxn A memTab' memTab.length { heap' with mem }).events =
            heap'.events ++ blocks.map .free := by
  constructor
  · intro memTab' heap' hrun
    obtain ⟨gs, rest, heap₁, hgranted, -, -, hevents, rfl⟩ :=
      allocLoop_refused hA (.nil heap) hfits hrun
    rw [List.nil_append] at hgranted ⊢
    obtain ⟨hlive, hfreed⟩ := hgranted.freeAll hA
    exact ⟨hlive, gs.map Grant.block, hgranted.nodup, by rw [hfreed, hevents]⟩
  · intro memTab' heap' hrun
    obtain ⟨gs, rfl, hall, hgranted, hevents⟩ := allocLoop_granted hA (.nil heap) hfits hrun
    rw [List.nil_append] at hgranted
    refine ⟨gs.map Grant.block, hgranted.nodup, ?_, hevents, ?_⟩
    · rw [List.length_map, hall.length_eq]
    · intro mem hmem
      have htake : (gs.map Grant.record).take memTab.length = gs.map Grant.record :=
        List.take_of_length_le (by rw [List.length_map, hall.length_eq])
      rw [List.nil_append, freeFxn, htake]
      refine Granted.freeAll hA (hgranted.written ?_)
      intro a ha
      apply hmem a
      intro r hr
      obtain ⟨g, hg, rfl⟩ := List.mem_map.mp hr
      exact ha g hg

/-- Three buffers of different alignments. -/
def threeBuffers : List MemRec := [⟨100, 0, 0⟩, ⟨60, 32, 0⟩, ⟨7, 4, 0⟩]

/-- Three buffers and one that no heap can hold. -/
def fourthTooLarge : List MemRec := threeBuffers ++ [⟨0xffffff00, 16, 0⟩]

/-- Three buffers are granted and freed; with one more that is too large they are
granted and given back at once. -/
theorem codec_memory_returned_three :
    (allocFxn bump threeBuffers .empty).1 = true ∧
    (freeFxn bump (allocFxn bump threeBuffers .empty).2.1 3
      (allocFxn bump threeBuffers .empty).2.2).live = ∅ ∧
    (allocFxn bump fourthTooLarge .empty).1 = false ∧
    (allocFxn bump fourthTooLarge .empty).2.2.live = ∅ := by
  have hgranted : (allocFxn bump threeBuffers .empty).1 = true := by decide +kernel
  have hrefused : (allocFxn bump fourthTooLarge .empty).1 = false := by decide +kernel
  obtain ⟨-, hthree⟩ := @codec_memory_returned bump .empty threeBuffers bump_sound (by decide +kernel)
  obtain ⟨hfour, -⟩ := @codec_memory_returned bump .empty fourthTooLarge bump_sound (by decide +kernel)
  obtain ⟨blocks, -, -, -, hfree⟩ := hthree _ _ (Prod.ext hgranted rfl)
  exact ⟨hgranted, (hfree _ fun _ _ => rfl).1, hrefused, (hfour _ _ (Prod.ext hrefused rfl)).1⟩

/-- Where the allocator aligns as asked, all a codec gets is aligned as asked, inside
its own block, and apart from everything else. -/
theorem codec_buffers_placed {memTab' : List MemRec} {heap' : Heap} (hA : A.Sound)
    (haligned : A.Aligned) (hfits : ∀ r ∈ memTab, r.Fits) (hpow : ∀ r ∈ memTab, r.PowerAligned)
    (hrun : allocFxn A memTab heap = (true, memTab', heap')) :
    List.Forall₂ (fun r r' => r'.size = r.size ∧ r'.alignment = r.alignment ∧
      (r.alignment ≠ 0 → r.alignment.toNat ∣ r'.base.toNat)) memTab memTab' ∧
    (∃ blocks : List Block, blocks.Nodup ∧ List.Forall₂ (fun r b => b ∈ heap'.live ∧
      b ∉ heap.live ∧ r.header.Within b.extent ∧ r.payload.Within b.extent) memTab' blocks) ∧
    memTab'.Pairwise (fun r r' => r.header.Apart r'.header ∧ r.header.Apart r'.payload ∧
      r.payload.Apart r'.header ∧ r.payload.Apart r'.payload) ∧
    ∀ r ∈ memTab', r.header.Apart r.payload ∧
      ∀ b ∈ heap.live, r.header.Apart b.extent ∧ r.payload.Apart b.extent := by
  obtain ⟨gs, rfl, hall, hgranted, -⟩ := allocLoop_granted hA (.nil heap) hfits hrun
  rw [List.nil_append] at hgranted ⊢
  refine ⟨?_, ?_, ?_, ?_⟩
  · rw [List.forall₂_map_right_iff]
    refine ((List.forall₂_and_left _ _).mpr ⟨hpow, hall⟩).imp ?_
    intro r g hanswers
    exact ⟨hanswers.2.size, hanswers.2.alignment, hanswers.2.dvd_base haligned hanswers.1⟩
  · refine ⟨gs.map Grant.block, hgranted.nodup, ?_⟩
    rw [List.forall₂_map_left_iff, List.forall₂_map_right_iff, List.forall₂_same]
    intro g hg
    exact ⟨hgranted.mem_live hg, hgranted.not_before hg, g.header_within, g.payload_within⟩
  · rw [List.pairwise_map]
    apply hgranted.apart.imp
    intro g g' happart
    exact ⟨happart.within g.header_within g'.header_within,
      happart.within g.header_within g'.payload_within,
      happart.within g.payload_within g'.header_within,
      happart.within g.payload_within g'.payload_within⟩
  · intro r hr
    obtain ⟨g, hg, rfl⟩ := List.mem_map.mp hr
    refine ⟨g.header_apart_payload, ?_⟩
    intro b hb
    exact ⟨fun a ha => hgranted.outside g hg b hb a (g.header_within.holds ha),
      fun a ha => hgranted.outside g hg b hb a (g.payload_within.holds ha)⟩

/-- The buffer with an alignment of its own gets it. -/
theorem codec_buffers_placed_three :
    ∃ r ∈ (allocFxn bump threeBuffers .empty).2.1, r.alignment = 32 ∧ 32 ∣ r.base.toNat ∧
      r.header.Apart r.payload := by
  have hpow : ∀ r ∈ threeBuffers, r.PowerAligned := by
    simp only [threeBuffers, List.forall_mem_cons, List.not_mem_nil, false_implies, implies_true]
    exact ⟨Or.inl rfl, Or.inr ⟨5, rfl⟩, Or.inr ⟨2, rfl⟩, trivial⟩
  have hrun := Prod.ext (show (allocFxn bump threeBuffers .empty).1 = true by decide +kernel) rfl
  obtain ⟨-, -, -, happart⟩ := codec_buffers_placed bump_sound bump_aligned (by decide +kernel) hpow hrun
  have hmem : (allocFxn bump threeBuffers .empty).2.1[1] ∈ (allocFxn bump threeBuffers .empty).2.1 :=
    List.getElem_mem _
  exact ⟨_, hmem, by decide +kernel, by decide +kernel, (happart _ hmem).1⟩

end Table

end Libdce.Firmware
