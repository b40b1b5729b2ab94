import Libdce.Basic
import Libdce.Foundation.Bytes

/-!
# Shared blocks as the client sees them

`dce_alloc` puts a header in front of every block that can be passed to the
coprocessor: the size asked for and the address at which the coprocessor finds
the payload. Stubs replace a client pointer by that address.
-/

namespace Libdce.Host

open Foundation.Bytes

/-- The header in front of a block. -/
structure MemHeader where
  size : Word
  ducatiAddr : Word
  deriving DecidableEq, Repr

/-- `P2H`, the address of the header of a block. -/
def p2h (p : Word) : Word := p - 8

/-- `H2P`, the address of the block behind a header. -/
def h2p (h : Word) : Word := h + 8

/-- The header stored at an address. -/
def memHeader (mem : Buffer) (h : Word) : MemHeader := ⟨mem.get32 h.toNat, mem.get32 (h.toNat + 4)⟩

/-- `dce_alloc`, where `h` is the answer of `MemMgr_Alloc` and `virtToPhys` is
`TilerMem_VirtToPhys`. -/
def dceAlloc (h : Word) (virtToPhys : Word → Word) (sz : Word) (mem : Buffer) : Word × Buffer :=
  let mem := mem.put32 h.toNat sz
  let mem := mem.put32 (h.toNat + 4) (virtToPhys (h2p h))
  (h2p h, mem.memset (h2p h).toNat 0 sz.toNat)

/-- What `dce_free` passes to `MemMgr_Free`. -/
def dceFree (ptr : Word) : Word := p2h ptr

/-- `virt2ducati`. -/
def virt2ducati (mem : Buffer) (ptr : Word) : Word :=
  if ptr ≠ 0 then (memHeader mem (p2h ptr)).ducatiAddr else 0

theorem virt2ducati_of_ne_zero (mem : Buffer) {ptr : Word} (h : ptr ≠ 0) :
    virt2ducati mem ptr = (memHeader mem (p2h ptr)).ducatiAddr := if_pos h

theorem h2p_toNat {h : Word} (hh : h.toNat + 8 < 2 ^ 32) : (h2p h).toNat = h.toNat + 8 := by
  unfold h2p
  bv_omega

theorem p2h_toNat {p : Word} (hp : 8 ≤ p.toNat) : (p2h p).toNat = p.toNat - 8 := by
  unfold p2h
  bv_omega

@[simp] theorem p2h_h2p (h : Word) : p2h (h2p h) = h := by
  unfold p2h h2p
  bv_omega

@[simp] theorem h2p_p2h (p : Word) : h2p (p2h p) = p := by
  unfold p2h h2p
  bv_omega

theorem memHeader_congr {mem mem' : Buffer} {h : Word}
    (hmem : ∀ k, h.toNat ≤ k → k < h.toNat + 8 → mem' k = mem k) :
    memHeader mem' h = memHeader mem h := by
  have hsize : mem'.get32 h.toNat = mem.get32 h.toNat :=
    Buffer.get32_congr fun k hlo hhi => hmem k hlo (by omega)
  have haddr : mem'.get32 (h.toNat + 4) = mem.get32 (h.toNat + 4) :=
    Buffer.get32_congr fun k hlo hhi => hmem k (by omega) (by omega)
  rw [memHeader, memHeader, hsize, haddr]

/-- The header of a new block holds the size and the coprocessor's address. -/
theorem memHeader_dceAlloc {h : Word} (virtToPhys : Word → Word) (sz : Word) (mem : Buffer)
    (hh : h.toNat + 8 < 2 ^ 32) :
    memHeader (dceAlloc h virtToPhys sz mem).2 (p2h (dceAlloc h virtToPhys sz mem).1) =
      ⟨sz, virtToPhys (h2p h)⟩ := by
  simp only [dceAlloc, memHeader, p2h_h2p, h2p_toNat hh]
  rw [Buffer.get32_memset_of_apart _ (by unfold Buffer.Apart; omega),
    Buffer.get32_memset_of_apart _ (by unfold Buffer.Apart; omega), Buffer.get32_put32,
    Buffer.get32_put32_of_apart _ (by unfold Buffer.Apart; omega), Buffer.get32_put32]

/-- Nothing outside a new block is written. -/
theorem dceAlloc_apply_of_apart {h : Word} (virtToPhys : Word → Word) (sz : Word) (mem : Buffer)
    (hh : h.toNat + 8 < 2 ^ 32) {a : Nat} (ha : a < h.toNat ∨ h.toNat + 8 + sz.toNat ≤ a) :
    (dceAlloc h virtToPhys sz mem).2 a = mem a := by
  simp only [dceAlloc, h2p_toNat hh, Buffer.memset, Buffer.put32]
  rw [if_neg (by omega), if_neg (by omega), if_neg (by omega)]

/-- The payload of a new block is cleared. -/
theorem dceAlloc_payload {h : Word} (virtToPhys : Word → Word) (sz : Word) (mem : Buffer) {a : Nat}
    (hlo : (h2p h).toNat ≤ a) (hhi : a < (h2p h).toNat + sz.toNat) :
    (dceAlloc h virtToPhys sz mem).2 a = 0 := if_pos ⟨hlo, hhi⟩

/-- Everything in a new block is written. -/
theorem dceAlloc_congr {h : Word} (virtToPhys : Word → Word) (sz : Word) (mem mem' : Buffer)
    (hh : h.toNat + 8 < 2 ^ 32) {a : Nat} (hlo : h.toNat ≤ a) (hhi : a < h.toNat + 8 + sz.toNat) :
    (dceAlloc h virtToPhys sz mem).2 a = (dceAlloc h virtToPhys sz mem').2 a := by
  simp only [dceAlloc, h2p_toNat hh, Buffer.memset, Buffer.put32]
  split_ifs <;> first | rfl | omega

end Libdce.Host
