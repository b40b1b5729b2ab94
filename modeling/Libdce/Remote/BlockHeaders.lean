import Libdce.Remote.HeaderAccess

/-!
# Headers under two address spaces

The client finds the header of a block in front of its own pointer, the coprocessor in
front of the address that was sent to it. While clients and codecs keep to the payloads,
both find what `dce_alloc` wrote there, for as long as the block lives.

## Implementation notes

Memory is indexed by the client's addresses. The coprocessor looks at it through a
mapping, which is asked to be contiguous within a block and to agree with
`TilerMem_VirtToPhys` there. The address of the payload counts as one of the block, also
when the payload is empty.
-/

namespace Libdce.Remote

open Foundation.Bytes Foundation.Allocation Foundation.GuardedRuns Host

/-- `TilerMem_VirtToPhys`, and the byte of the client that the coprocessor finds at one
of its addresses. -/
structure Mapping where
  virtToPhys : Word → Word
  physToVirt : ℕ → ℕ

namespace Mapping

variable (M : Mapping)

/-- The block is contiguous for the coprocessor, which finds its bytes there. -/
structure Translates (b : Block) : Prop where
  phys : ∀ k, k < b.size.toNat ∨ k = 8 →
    (M.virtToPhys (b.ptr + BitVec.ofNat 32 k)).toNat = (M.virtToPhys b.ptr).toNat + k
  virt : ∀ k < b.size.toNat, M.physToVirt ((M.virtToPhys b.ptr).toNat + k) = b.ptr.toNat + k

/-- Memory as the coprocessor sees it. -/
def view (mem : Buffer) : Buffer := fun q => mem (M.physToVirt q)

end Mapping

/-- The range that `dce_clean` passes to `Cache_wbInv`. -/
def cleanRange (view : Buffer) (ptr : Word) : Extent :=
  ⟨ptr.toNat, (memHeader view (p2h ptr)).size.toNat⟩

/-- `dce_alloc` with the answer of `MemMgr_Alloc`, `dce_free`, and a write by a client or
by a codec, each with its own address. -/
inductive BlockStep where
  | dceAlloc (h sz : Word)
  | dceFree (ptr : Word)
  | clientWrite (a : ℕ) (v : Byte)
  | codecWrite (q : ℕ) (v : Byte)
  deriving DecidableEq

namespace BlockStep

variable (M : Mapping) (s : SharedHeap)

/-- The step as one of a client; no call is under way. -/
def toClientStep : BlockStep → ClientStep Unit
  | .dceAlloc h sz => .dceAlloc h sz
  | .dceFree ptr => .dceFree ptr
  | .clientWrite a v => .write a v
  | .codecWrite q v => .write (M.physToVirt q) v

/-- What each step does. -/
def step (a : BlockStep) : SharedHeap := s.step M.virtToPhys (a.toClientStep M)

/-- When a step may be taken: sizes are not negative, allocations succeed with a block
apart from the others, and everybody keeps to live blocks and their payloads. -/
def Legal : BlockStep → Prop
  | .dceAlloc h sz => sz.toNat < 2 ^ 31 ∧ Block.Fits ⟨h, sz + 8⟩ ∧
      (∀ b ∈ s.live, b.extent.Apart (Block.extent ⟨h, sz + 8⟩)) ∧ M.Translates ⟨h, sz + 8⟩
  | .dceFree ptr => LivePointer s.live ptr
  | .clientWrite a _ => ∃ h sz : Word, ⟨h, sz + 8⟩ ∈ s.live ∧
      Extent.Holds ⟨(h2p h).toNat, sz.toNat⟩ a
  | .codecWrite q _ => ∃ h sz : Word, ⟨h, sz + 8⟩ ∈ s.live ∧
      Extent.Holds ⟨(M.virtToPhys (h2p h)).toNat, sz.toNat⟩ q

end BlockStep

namespace Mapping.Translates

variable {M : Mapping} {b : Block}

/-- The payload starts behind the header for the coprocessor too. -/
theorem virtToPhys_h2p (hb : M.Translates b) : M.virtToPhys (h2p b.ptr) = h2p (M.virtToPhys b.ptr) := by
  have hphys := hb.phys 8 (Or.inr rfl)
  have hlt := (M.virtToPhys (b.ptr + 8)).isLt
  apply BitVec.eq_of_toNat_eq
  rw [h2p_toNat (hphys ▸ hlt)]
  exact hphys

theorem toNat_virtToPhys_h2p (hb : M.Translates b) :
    (M.virtToPhys (h2p b.ptr)).toNat = (M.virtToPhys b.ptr).toNat + 8 := hb.phys 8 (Or.inr rfl)

/-- Both sides find the same header. -/
theorem memHeader_view (hb : M.Translates b) (hroom : 8 ≤ b.size.toNat) (mem : Buffer) :
    memHeader (M.view mem) (M.virtToPhys b.ptr) = memHeader mem b.ptr := by
  have hbyte : ∀ k < 8, M.view mem ((M.virtToPhys b.ptr).toNat + k) = mem (b.ptr.toNat + k) :=
    fun k hk => congrArg mem (hb.virt k (by omega))
  simp only [memHeader, Buffer.get32, Nat.add_assoc, Nat.reduceAdd, hbyte 1 (by omega),
    hbyte 2 (by omega), hbyte 3 (by omega), hbyte 4 (by omega), hbyte 5 (by omega),
    hbyte 6 (by omega), hbyte 7 (by omega)]
  rw [show M.view mem (M.virtToPhys b.ptr).toNat = mem b.ptr.toNat from hbyte 0 (by omega)]

end Mapping.Translates

/-- The invariant: headers are as `dce_alloc` wrote them, and blocks are where the
coprocessor looks for them. -/
structure HeadersTrue (M : Mapping) (s : SharedHeap) : Prop where
  intact : Intact M.virtToPhys s
  translates : ∀ b ∈ s.live, M.Translates b

namespace HeadersTrue

variable {M : Mapping} {s : SharedHeap} {h sz : Word}

theorem zero (mem : Buffer) : HeadersTrue M (.zero mem) :=
  ⟨Intact.zero mem, fun b hb => absurd hb (Finset.notMem_empty b)⟩

theorem toNat_size (hs : HeadersTrue M s) (hb : ⟨h, sz + 8⟩ ∈ s.live) :
    (sz + 8).toNat = sz.toNat + 8 := by
  have hroom := hs.intact.room _ hb
  dsimp only at hroom
  bv_omega

theorem toNat_h2p (hs : HeadersTrue M s) (hb : ⟨h, sz + 8⟩ ∈ s.live) :
    (h2p h).toNat = h.toNat + 8 := by
  have hfits := (hs.intact.fits _ hb).2
  have hroom := hs.intact.room _ hb
  dsimp only at hfits hroom
  exact h2p_toNat (by omega)

/-- The coprocessor's payload is the client's payload. -/
theorem physToVirt_payload (hs : HeadersTrue M s) (hb : ⟨h, sz + 8⟩ ∈ s.live) {k : ℕ}
    (hk : k < sz.toNat) :
    M.physToVirt ((M.virtToPhys (h2p h)).toNat + k) = (h2p h).toNat + k := by
  have htranslates := hs.translates _ hb
  have hsize := hs.toNat_size hb
  have hvirt := htranslates.virt (8 + k) (by dsimp only; omega)
  have hpayload := htranslates.toNat_virtToPhys_h2p
  dsimp only at hvirt hpayload
  rw [hpayload, hs.toNat_h2p hb, Nat.add_assoc, hvirt, Nat.add_assoc]

/-- A step that may be taken may be taken by a client, with room for the header and a
block granted. -/
theorem toClientStep (hs : HeadersTrue M s) {a : BlockStep} (hlegal : a.Legal M s) :
    s.Legal M.virtToPhys (a.toClientStep M) ∧ (a.toClientStep M).Sized ∧
      (a.toClientStep M).Served := by
  cases a with
  | dceAlloc h sz =>
      obtain ⟨hsz, hfits, hfresh, htranslates⟩ := hlegal
      have hpayload := htranslates.toNat_virtToPhys_h2p
      refine ⟨fun _ => ⟨hfits, hfresh, htranslates.virtToPhys_h2p, ?_⟩, ?_, hfits.1⟩
      · intro hzero
        rw [hzero] at hpayload
        exact absurd hpayload.symm (Nat.succ_ne_zero _)
      · exact (by omega : sz.toNat + 8 < 2 ^ 32)
  | dceFree ptr => exact ⟨hlegal, trivial, trivial⟩
  | clientWrite a v =>
      obtain ⟨h, sz, hb, hlo, hhi⟩ := hlegal
      have hsize := hs.toNat_size hb
      have hptr := hs.toNat_h2p hb
      dsimp only at hlo hhi
      refine ⟨⟨_, hb, ?_, ?_⟩, trivial, trivial⟩
      · exact hptr ▸ hlo
      · dsimp only
        omega
  | codecWrite q v =>
      obtain ⟨h, sz, hb, hlo, hhi⟩ := hlegal
      have hsize := hs.toNat_size hb
      have hptr := hs.toNat_h2p hb
      obtain ⟨k, rfl⟩ := Nat.exists_eq_add_of_le hlo
      have hvirt := hs.physToVirt_payload hb (Nat.lt_of_add_lt_add_left hhi)
      dsimp only at hvirt hhi
      refine ⟨⟨_, hb, ?_, ?_⟩, trivial, trivial⟩
      · rw [hvirt]
        dsimp only
        omega
      · rw [hvirt]
        dsimp only
        omega

theorem step (hs : HeadersTrue M s) {a : BlockStep} (hlegal : a.Legal M s) :
    HeadersTrue M (a.step M s) := by
  obtain ⟨hclient, hsized, hserved⟩ := hs.toClientStep hlegal
  refine ⟨hs.intact.step hclient hsized hserved, ?_⟩
  cases a with
  | dceAlloc h sz =>
      have hlive : (BlockStep.step M s (.dceAlloc h sz)).live = insert ⟨h, sz + 8⟩ s.live :=
        if_pos hlegal.2.1.1
      rw [hlive]
      exact Finset.forall_mem_insert _ _ _ |>.mpr ⟨hlegal.2.2.2, hs.translates⟩
  | dceFree ptr => exact fun b hb => hs.translates b (Finset.mem_of_mem_filter b hb)
  | clientWrite a v => exact hs.translates
  | codecWrite q v => exact hs.translates

/-- What `dce_clean` finds for a live block. -/
theorem cleanRange_eq (hs : HeadersTrue M s) (hb : ⟨h, sz + 8⟩ ∈ s.live) :
    cleanRange (M.view s.mem) (M.virtToPhys (h2p h)) =
      ⟨(M.virtToPhys (h2p h)).toNat, sz.toNat⟩ := by
  have htranslates := hs.translates _ hb
  have hheader := htranslates.memHeader_view (hs.intact.room _ hb) s.mem
  have hphys := htranslates.virtToPhys_h2p
  have hfound := hs.intact.header _ hb
  dsimp only at hheader hphys hfound
  rw [cleanRange, hphys, p2h_h2p, hheader, hfound, BitVec.add_sub_cancel]

end HeadersTrue

/-- While everybody keeps to live payloads, what the client sends for a live block is its
address on the coprocessor, `dce_clean` works on exactly the payload, and `dce_free`
passes on the pointer that `MemMgr_Alloc` returned. A new block is filled with zeros. -/
theorem block_headers_true (M : Mapping) {mem : Buffer} {as : List BlockStep}
    (run : Run (BlockStep.step M) (BlockStep.Legal M) (.zero mem) as) :
    (∀ h sz : Word, ⟨h, sz + 8⟩ ∈ (final (BlockStep.step M) (.zero mem) as).live →
      virt2ducati (final (BlockStep.step M) (.zero mem) as).mem (h2p h) = M.virtToPhys (h2p h) ∧
      cleanRange (M.view (final (BlockStep.step M) (.zero mem) as).mem) (M.virtToPhys (h2p h)) =
        ⟨(M.virtToPhys (h2p h)).toNat, sz.toNat⟩ ∧
      (∀ k < sz.toNat,
        M.physToVirt ((M.virtToPhys (h2p h)).toNat + k) = (h2p h).toNat + k) ∧
      Extent.Within ⟨(h2p h).toNat, sz.toNat⟩ (Block.extent ⟨h, sz + 8⟩) ∧
      dceFree (h2p h) = h) ∧
    ∀ h sz : Word, BlockStep.Legal M (final (BlockStep.step M) (.zero mem) as) (.dceAlloc h sz) →
      (dceAlloc h M.virtToPhys sz (final (BlockStep.step M) (.zero mem) as).mem).1 = h2p h ∧
      ∀ a, Extent.Holds ⟨(h2p h).toNat, sz.toNat⟩ a →
        (final (BlockStep.step M) (.zero mem) (as ++ [.dceAlloc h sz])).mem a = 0 := by
  have hs : HeadersTrue M (final (BlockStep.step M) (.zero mem) as) :=
    run.invariant (HeadersTrue.zero mem) fun _ _ hs hlegal => hs.step hlegal
  constructor
  · intro h sz hb
    refine ⟨?_, hs.cleanRange_eq hb, fun k hk => hs.physToVirt_payload hb hk, ?_, p2h_h2p h⟩
    · exact (hs.intact.virt2ducati_h2p hb).trans (hs.intact.mapped _ hb).symm
    · have hsize := hs.toNat_size hb
      have hptr := hs.toNat_h2p hb
      simp only [Extent.Within, Block.extent]
      omega
  · intro h sz _
    refine ⟨rfl, ?_⟩
    intro a ha
    rw [final_concat]
    exact dceAlloc_payload M.virtToPhys sz _ ha.1 ha.2

/-- The coprocessor finds memory sixty-four kilobytes higher up. -/
def shifted : Mapping := ⟨(· + 0x10000), (· - 0x10000)⟩

theorem shifted_translates : shifted.Translates ⟨0x1000, 100 + 8⟩ where
  phys k hk := by
    have hk' : k < 108 := hk.elim id fun h8 => h8 ▸ by decide
    dsimp only [shifted]
    bv_omega
  virt k hk := by
    have hk' : k < 108 := hk
    have hphys : (shifted.virtToPhys 0x1000).toNat = 0x11000 := rfl
    have hptr : (0x1000 : Word).toNat = 0x1000 := rfl
    dsimp only
    rw [hphys, hptr]
    dsimp only [shifted]
    omega

/-- A block that a client and a codec have written to. -/
theorem block_headers_true_written :
    let as : List BlockStep := [.dceAlloc 0x1000 100, .clientWrite 0x1008 1, .codecWrite 0x1106b 2]
    cleanRange (shifted.view (final (BlockStep.step shifted) (.zero fun _ => 0) as).mem) 0x11008 =
      ⟨0x11008, 100⟩ := by
  have hlive : ∀ as : List BlockStep, as = [.dceAlloc 0x1000 100] ∨
      as = [.dceAlloc 0x1000 100, .clientWrite 0x1008 1] →
        (⟨0x1000, 100 + 8⟩ : Block) ∈ (final (BlockStep.step shifted) (.zero fun _ => 0) as).live := by
    rintro as (rfl | rfl) <;> decide +kernel
  have run : Run (BlockStep.step shifted) (BlockStep.Legal shifted) (.zero fun _ => 0)
      [.dceAlloc 0x1000 100, .clientWrite 0x1008 1, .codecWrite 0x1106b 2] := by
    refine ⟨⟨by decide, by decide, ?_, shifted_translates⟩, ?_, ?_, trivial⟩
    · exact fun b hb => absurd hb (Finset.notMem_empty b)
    · exact ⟨0x1000, 100, hlive _ (Or.inl rfl), by decide, by decide⟩
    · exact ⟨0x1000, 100, hlive _ (Or.inr rfl), by decide, by decide⟩
  exact ((block_headers_true shifted run).1 0x1000 100 (by decide +kernel)).2.1

end Libdce.Remote
