import Libdce.Foundation.GuardedRuns
import Libdce.Foundation.WriteBackCache
import Libdce.Host.Memory
import Libdce.Remote.Handlers

/-!
# Blocks in shared memory

The host writes memory itself, the coprocessor works through its data cache. A
handler ends with `dce_clean` for every structure it was passed, which finds the
size of the structure in the header in front of it and has to read that header
through the cache.

## Implementation notes

The system is written over a machine that says how each side gets at memory, and
is run on two of them: memory behind a cache, and flat memory. Addresses are
those of the coprocessor, so `TilerMem_VirtToPhys` is the identity here. The
actions that a handler has still to do are those of `Remote`, taken one at a
time; the codec works while the call into Codec Engine is the next of them. A
cache may also drop a line for reasons of its own, written back if it is dirty.
-/

namespace Libdce.Coherence

open Foundation.Bytes Foundation.WriteBackCache Foundation.GuardedRuns Host Remote

/-- How the host and the coprocessor get at shared memory. -/
structure Machine (μ : Type*) where
  host : μ → Buffer
  store : μ → Buffer → μ
  read : μ → Nat → Byte × μ
  write : μ → Nat → Byte → μ
  wbInv : μ → Nat → Nat → μ
  evict : μ → Nat → μ

namespace Machine

/-- The coprocessor behind a cache with lines of `L` bytes. -/
def cached (L : Nat) [NeZero L] : Machine (Cache L Byte) where
  host c := c.memory
  store := Cache.store
  read := Cache.read
  write := Cache.write
  wbInv := Cache.wbInv
  evict c l := c.flush (· = l)

/-- One memory for both. -/
def flat : Machine Buffer where
  host m := m
  store _ m := m
  read m a := (m a, m)
  write := Function.update
  wbInv m _ _ := m
  evict m _ := m

variable {μ : Type*} (M : Machine μ) (m : μ)

/-- Read a word on the coprocessor. -/
def read32 (a : Nat) : Word × μ :=
  let (b0, m) := M.read m a
  let (b1, m) := M.read m (a + 1)
  let (b2, m) := M.read m (a + 2)
  let (b3, m) := M.read m (a + 3)
  (b3 ++ b2 ++ b1 ++ b0, m)

/-- `dce_clean`, with the size it has read. -/
def dceClean (ptr : Word) : Word × μ :=
  let (size, m) := M.read32 m (p2h ptr).toNat
  (size, M.wbInv m ptr.toNat size.toNat)

/-- Reading a word within a line loads that line. -/
theorem read32_cached {L : Nat} [NeZero L] (c : Cache L Byte) {a l : Nat}
    (hl : ∀ k < 4, (a + k) / L = l) :
    (cached L).read32 c a = (Buffer.get32 c.view a, c.load l) := by
  have hl0 : a / L = l := hl 0 (by omega)
  simp only [read32, cached, Cache.read, Cache.view_load, Cache.load_load, Buffer.get32, hl0,
    hl 1 (by omega), hl 2 (by omega), hl 3 (by omega)]

theorem dceClean_flat (m : Buffer) (ptr : Word) :
    flat.dceClean m ptr = ((memHeader m (p2h ptr)).size, m) := rfl

end Machine

/-- A block that `dce_alloc` returned. -/
structure Block where
  ptr : Word
  size : Word
  deriving DecidableEq, Repr

namespace Block

variable (L : Nat) (b b' : Block)

/-- The byte belongs to what the client asked for. -/
def Holds (a : Nat) : Prop := b.ptr.toNat ≤ a ∧ a < b.ptr.toNat + b.size.toNat

/-- The line of the header. -/
def firstLine : Nat := (p2h b.ptr).toNat / L

/-- The line of the last byte. -/
def lastLine : Nat := (b.ptr.toNat + b.size.toNat - 1) / L

/-- The line has a byte of the block, header included. -/
def OnLine (l : Nat) : Prop := b.firstLine L ≤ l ∧ l ≤ b.lastLine L

/-- The block is not empty, fits into the address space and has its header on
the line of its first byte. -/
structure Placed : Prop where
  header : 8 < b.ptr.toNat
  nonempty : 0 < b.size.toNat
  fits : b.ptr.toNat + b.size.toNat ≤ 2 ^ 32
  line : b.firstLine L = b.ptr.toNat / L

/-- No line has bytes of both blocks. -/
def Apart : Prop := b.lastLine L < b'.firstLine L ∨ b'.lastLine L < b.firstLine L

instance (a : Nat) : Decidable (b.Holds a) := inferInstanceAs (Decidable (_ ∧ _))

instance : DecidablePred (b.OnLine L) := fun _ => inferInstanceAs (Decidable (_ ∧ _))

instance : Decidable (b.Placed L) :=
  decidable_of_iff (8 < b.ptr.toNat ∧ 0 < b.size.toNat ∧ b.ptr.toNat + b.size.toNat ≤ 2 ^ 32 ∧
      b.firstLine L = b.ptr.toNat / L)
    ⟨fun ⟨h1, h2, h3, h4⟩ => ⟨h1, h2, h3, h4⟩, fun ⟨h1, h2, h3, h4⟩ => ⟨h1, h2, h3, h4⟩⟩

instance : Decidable (b.Apart L b') := inferInstanceAs (Decidable (_ ∨ _))

variable {L b b'}

theorem Apart.symm (h : b.Apart L b') : b'.Apart L b := Or.symm h

theorem Apart.not_onLine {l : Nat} (h : b.Apart L b') (hl : b.OnLine L l) : ¬b'.OnLine L l := by
  unfold Apart at h
  unfold OnLine at hl ⊢
  omega

theorem onLine {a : Nat} (hlo : (p2h b.ptr).toNat ≤ a)
    (hhi : a < b.ptr.toNat + b.size.toNat) : b.OnLine L (a / L) :=
  ⟨Nat.div_le_div_right hlo, Nat.div_le_div_right (by omega)⟩

/-- Blocks on different lines have no byte in common. -/
theorem Apart.not_mem {a : Nat} (h : b.Apart L b')
    (hlo : (p2h b.ptr).toNat ≤ a) (hhi : a < b.ptr.toNat + b.size.toNat) :
    a < (p2h b'.ptr).toNat ∨ b'.ptr.toNat + b'.size.toNat ≤ a := by
  by_contra hmem
  exact h.not_onLine (onLine hlo hhi) (onLine (by omega) (by omega))

namespace Placed

variable {a l : Nat}

theorem p2h_toNat (h : b.Placed L) : (p2h b.ptr).toNat = b.ptr.toNat - 8 :=
  Host.p2h_toNat h.header.le

theorem header_fits (h : b.Placed L) : (p2h b.ptr).toNat + 8 < 2 ^ 32 := by
  have := h.p2h_toNat
  have := h.header
  have := h.nonempty
  have := h.fits
  omega

theorem onLine_of_holds (h : b.Placed L) (ha : b.Holds a) : b.OnLine L (a / L) :=
  Block.onLine (by have := h.p2h_toNat; have := ha.1; omega) ha.2

theorem onLine_firstLine (h : b.Placed L) : b.OnLine L (b.firstLine L) :=
  Block.onLine le_rfl (by have := h.header_fits; have := h.p2h_toNat; have := h.nonempty; omega)

/-- The header and the first byte are on one line. -/
theorem header_div (h : b.Placed L) {k : Nat} (hk : k ≤ 8) :
    ((p2h b.ptr).toNat + k) / L = b.firstLine L := by
  apply le_antisymm
  · rw [h.line]
    exact Nat.div_le_div_right (by have := h.p2h_toNat; have := h.header; omega)
  · exact Nat.div_le_div_right (by omega)

/-- `Cache_wbInv` on what the client asked for drops the header too. -/
theorem overlaps_iff (h : b.Placed L) :
    Overlaps L b.ptr.toNat b.size.toNat l ↔ b.OnLine L l := by
  rw [Foundation.WriteBackCache.overlaps_iff h.nonempty, OnLine, h.line, lastLine]

end Placed

end Block

/-- Cleaning a block reads its size from the header and drops its lines. -/
theorem Machine.dceClean_cached {L : Nat} [NeZero L] {b : Block} (hb : b.Placed L)
    (c : Cache L Byte) (hsize : (memHeader c.view (p2h b.ptr)).size = b.size) :
    (cached L).dceClean c b.ptr =
      (b.size, (c.load (b.firstLine L)).wbInv b.ptr.toNat b.size.toNat) := by
  have hread := read32_cached c (a := (p2h b.ptr).toNat) fun k hk => hb.header_div (by omega)
  simp only [dceClean, hread]
  rw [show Buffer.get32 c.view (p2h b.ptr).toNat = b.size from hsize]
  rfl

/-- A request in the hands of a worker: the blocks that were passed and what the
handler has still to do. -/
structure Call where
  blocks : List Block
  todo : List Remote.Action
  deriving DecidableEq

namespace Call

variable (c : Call)

/-- Codec Engine is working on the call. -/
def Decoding : Prop := ∃ env req rest, c.todo = .invoke env req :: rest

instance : Decidable c.Decoding :=
  match h : c.todo with
  | .invoke env req :: rest => isTrue ⟨env, req, rest, h⟩
  | [] => isFalse (by simp [Decoding, h])
  | .setEnv _ :: _ => isFalse (by simp [Decoding, h])
  | .ivahdAcquire :: _ => isFalse (by simp [Decoding, h])
  | .ivahdRelease :: _ => isFalse (by simp [Decoding, h])
  | .clean _ :: _ => isFalse (by simp [Decoding, h])
  | .register _ _ _ :: _ => isFalse (by simp [Decoding, h])
  | .unregister _ _ _ :: _ => isFalse (by simp [Decoding, h])

/-- The next action is done. -/
def next : Call := { c with todo := c.todo.tail }

/-- What is still to be cleaned. -/
def pending : List Word := CeRequest.cleans c.todo

/-- One action takes at most its own argument off what is still to be cleaned. -/
theorem mem_pending {c : Call} {ptr : Word} (h : ptr ∈ c.pending) :
    ptr ∈ c.next.pending ∨ ∃ rest, c.todo = .clean ptr :: rest := by
  unfold pending next at *
  cases htodo : c.todo with
  | nil =>
      rw [htodo] at h
      exact Or.inl h
  | cons act rest =>
      rw [htodo] at h
      cases act with
      | clean ptr' =>
          rcases List.mem_cons.mp h with rfl | h
          · exact Or.inr ⟨rest, rfl⟩
          · exact Or.inl h
      | _ => exact Or.inl h

theorem pending_next_subset (c : Call) : c.next.pending ⊆ c.pending := by
  unfold pending next
  exact ((List.tail_sublist c.todo).filterMap _).subset

end Call

/-- Memory, the blocks that are allocated, and the calls that have begun and not
returned. -/
structure State (μ : Type*) where
  mem : μ
  blocks : List Block
  calls : List Call

/-- The call that takes a step, or another one. -/
theorem State.mem_calls_iff {μ : Type*} {s : State μ} {c c' : Call} (hc : c ∈ s.calls) :
    c' ∈ s.calls ↔ c' = c ∨ c' ∈ s.calls.erase c :=
  (List.perm_cons_erase hc).mem_iff.trans List.mem_cons

/-- Nothing is allocated. -/
def State.zero {μ : Type*} (mem : μ) : State μ := ⟨mem, [], []⟩

/-- A step of a client, of a worker, of a codec or of the cache. -/
inductive Action where
  | dceAlloc (b : Block)
  | dceFree (b : Block)
  | hostWrite (a : Nat) (v : Byte)
  | hostRead (a : Nat)
  | begin (pid : Pid) (req : CeRequest) (reply : CeReply) (blocks : List Block)
  | codecRead (c : Call) (a : Nat)
  | codecWrite (c : Call) (a : Nat) (v : Byte)
  | advance (c : Call)
  | ret (c : Call)
  | evict (l : Nat)

/-- A reducible property of steps is decidable when it is for each of them. -/
@[reducible] protected def Action.decidable {P : Action → Prop} [∀ b, Decidable (P (.dceAlloc b))]
    [∀ b, Decidable (P (.dceFree b))] [∀ a v, Decidable (P (.hostWrite a v))]
    [∀ a, Decidable (P (.hostRead a))]
    [∀ pid req reply blocks, Decidable (P (.begin pid req reply blocks))]
    [∀ c a, Decidable (P (.codecRead c a))] [∀ c a v, Decidable (P (.codecWrite c a v))]
    [∀ c, Decidable (P (.advance c))] [∀ c, Decidable (P (.ret c))]
    [∀ l, Decidable (P (.evict l))] : DecidablePred P
  | .dceAlloc _ | .dceFree _ | .hostWrite _ _ | .hostRead _ | .begin _ _ _ _ | .codecRead _ _
  | .codecWrite _ _ _ | .advance _ | .ret _ | .evict _ => inferInstance

/-- What one of the parties reads. -/
inductive Observation where
  | byte (v : Byte)
  | size (sz : Word)
  deriving DecidableEq, Repr

namespace State

variable {μ : Type*} (M : Machine μ) (s : State μ)

/-- The effect of the next action of a handler on memory. -/
def memAfter (todo : List Remote.Action) : μ :=
  match todo with
  | .clean ptr :: _ => (M.dceClean s.mem ptr).2
  | _ => s.mem

theorem memAfter_flat (s : State Buffer) (todo : List Remote.Action) :
    s.memAfter Machine.flat todo = s.mem := by
  unfold memAfter
  split <;> rfl

/-- What each step does. -/
def step : Action → State μ
  | .dceAlloc b =>
      { s with
        mem := M.store s.mem (Host.dceAlloc (p2h b.ptr) id b.size (M.host s.mem)).2
        blocks := b :: s.blocks }
  | .dceFree b => { s with blocks := s.blocks.erase b }
  | .hostWrite a v => { s with mem := M.store s.mem (Function.update (M.host s.mem) a v) }
  | .hostRead _ => s
  | .begin pid req reply blocks =>
      { s with calls := ⟨blocks, req.actions pid reply⟩ :: s.calls }
  | .codecRead _ a => { s with mem := (M.read s.mem a).2 }
  | .codecWrite _ a v => { s with mem := M.write s.mem a v }
  | .advance c => { s with mem := s.memAfter M c.todo, calls := c.next :: s.calls.erase c }
  | .ret c => { s with calls := s.calls.erase c }
  | .evict l => { s with mem := M.evict s.mem l }

/-- What is read in a step. -/
def observe : Action → Option Observation
  | .hostRead a => some (.byte (M.host s.mem a))
  | .codecRead _ a => some (.byte (M.read s.mem a).1)
  | .advance c =>
      match c.todo with
      | .clean ptr :: _ => some (.size (M.dceClean s.mem ptr).1)
      | _ => none
  | _ => none

/-- When a step may be taken, for lines of `L` bytes: a new block shares no line
with another, clients use what is allocated, a request carries the words that
`virt2ducati` gives for blocks no other call has, and a codec touches only the
structures of its call. -/
@[reducible] def Legal (L : Nat) : Action → Prop
  | .dceAlloc b => b.Placed L ∧ ∀ b' ∈ s.blocks, b.Apart L b'
  | .dceFree b => b ∈ s.blocks
  | .hostWrite a _ => ∃ b ∈ s.blocks, b.Holds a
  | .hostRead a => ∃ b ∈ s.blocks, b.Holds a
  | .begin _ req _ blocks =>
      (∀ b ∈ blocks, b ∈ s.blocks ∧ ∀ c ∈ s.calls, b ∉ c.blocks) ∧
        req.structures = blocks.map fun b => virt2ducati (M.host s.mem) b.ptr
  | .codecRead c a => c ∈ s.calls ∧ c.Decoding ∧ ∃ b ∈ c.blocks, b.Holds a
  | .codecWrite c a _ => c ∈ s.calls ∧ c.Decoding ∧ ∃ b ∈ c.blocks, b.Holds a
  | .advance c => c ∈ s.calls ∧ c.todo ≠ []
  | .ret c => c ∈ s.calls ∧ c.todo = []
  | .evict _ => True

/-- No call that has not returned has the byte. -/
def Returned (a : Nat) : Prop := ∀ c ∈ s.calls, ∀ b ∈ c.blocks, ¬b.Holds a

/-- The host neither writes nor frees the structures of a call before it has
returned. -/
@[reducible] def HostWaits : Action → Prop
  | .dceFree b => ∀ c ∈ s.calls, b ∉ c.blocks
  | .hostWrite a _ => s.Returned a
  | _ => True

/-- What the host reads is not in use by a call. -/
def Settled : Action → Prop
  | .hostRead a => s.Returned a
  | _ => True

instance (L : Nat) : DecidablePred (s.Legal M L) := Action.decidable

instance (a : Nat) : Decidable (s.Returned a) :=
  inferInstanceAs (Decidable (∀ c ∈ s.calls, ∀ b ∈ c.blocks, ¬b.Holds a))

instance : DecidablePred s.HostWaits := Action.decidable

end State

end Libdce.Coherence
