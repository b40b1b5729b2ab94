import Libdce.Basic
import Libdce.Foundation.LinkedStack
import Libdce.Sample.FrameLayout

/-!
# The output buffers

The sample keeps the output buffers that the codec has not locked on a list linked
through their `OutputBuffer` structures. `output_get` takes one off, `output_release` puts
one back, `output_allocate` puts all there and `output_free` frees those that are there.

## Implementation notes

The structures are a function of their address. What `calloc` and `tiler_alloc` return in
a turn of `output_allocate` is an argument; the addresses of the host are 32-bit words.
The memory of the freed structures is not modelled: `output_free` is the list of the
calls that free.
-/

namespace Libdce.Sample

open Foundation.LinkedStack

/-- `OutputBuffer`. -/
structure OutputBuffer where
  buf : Word
  y : Word
  uv : Word
  next : Word
  deriving DecidableEq, Repr

/-- `head`, and the structures in memory. -/
structure Buffers where
  head : Word
  mem : Word → OutputBuffer

/-- What is allocated for an output buffer: the structure and the memory of the planes. -/
structure Grant where
  node : Word
  block : Word
  deriving DecidableEq, Repr

namespace Buffers

/-- The links between the structures. -/
def next (b : Buffers) (p : Word) : Word := (b.mem p).next

/-- `output_get`: the null pointer if there is no buffer. -/
def outputGet (b : Buffers) : Word × Buffers :=
  if b.head ≠ 0 then (b.head, { b with head := (b.mem b.head).next }) else (b.head, b)

/-- `output_release`. -/
def outputRelease (b : Buffers) (buf : Word) : Buffers :=
  ⟨buf, Function.update b.mem buf { b.mem buf with next := b.head }⟩

/-- The loop of `output_allocate`, a turn for each grant. -/
def outputAllocate (virtToPhys : Word → Word) (uvOffset : ℤ) (b : Buffers) : List Grant → Buffers
  | [] => b
  | g :: grants =>
      let buffer : OutputBuffer :=
        ⟨g.block, virtToPhys g.block, virtToPhys (g.block + BitVec.ofInt 32 uvOffset), b.head⟩
      outputAllocate virtToPhys uvOffset ⟨g.node, Function.update b.mem g.node buffer⟩ grants

/-- `output_free`: what it frees, in order. Nothing is returned if it is not through when
the fuel is. -/
def outputFree (b : Buffers) : ℕ → Option (List Grant)
  | 0 => none
  | fuel + 1 =>
      if b.head = 0 then some []
      else
        let freed : Grant := ⟨b.head, (b.mem b.head).buf⟩
        (outputFree { b with head := (b.mem b.head).next } fuel).map (freed :: ·)

end Buffers

section FreeList

variable {b : Buffers} {pool held : Finset Word} {free : List Word} {buf : Word}

/-- The buffers of a pool are on the list or held. -/
def Buffers.Split (b : Buffers) (pool held : Finset Word) (free : List Word) : Prop :=
  Pool 0 b.next b.head pool held free

theorem outputGet_of_ne (hhead : b.head ≠ 0) :
    b.outputGet = (b.head, { b with head := b.next b.head }) := if_pos hhead

theorem outputGet_fst (b : Buffers) : b.outputGet.1 = b.head := by
  rw [Buffers.outputGet]
  split <;> rfl

/-- Whoever gets a buffer holds it. -/
theorem Buffers.Split.get (h : b.Split pool held free) (hhead : b.head ≠ 0) :
    b.outputGet.2.Split pool (insert b.head held) free.tail := by
  rw [outputGet_of_ne hhead]
  exact h.pop hhead

/-- A held buffer that is released is back on the list. -/
theorem Buffers.Split.release (h : b.Split pool held free) (hbuf : buf ≠ 0) (hheld : buf ∈ held) :
    (b.outputRelease buf).Split pool (held.erase buf) (buf :: free) := by
  refine h.push hbuf hheld ?_ ?_
  · simp [Buffers.next, Buffers.outputRelease]
  · intro p (hp : p ≠ buf)
    simp [Buffers.next, Buffers.outputRelease, hp]

/-- Different held buffers that are released are all back on the list. -/
theorem Buffers.Split.release_all (h : b.Split pool held free) {bufs : List Word}
    (hnodup : bufs.Nodup) (hbufs : ∀ buf ∈ bufs, buf ≠ 0 ∧ buf ∈ held) :
    (bufs.foldl Buffers.outputRelease b).Split pool (held \ bufs.toFinset) (bufs.reverse ++ free) := by
  induction bufs generalizing b held free with
  | nil => simpa using h
  | cons buf bufs ih =>
      obtain ⟨hnew, hnodup⟩ := List.nodup_cons.mp hnodup
      obtain ⟨⟨hbuf, hheld⟩, hbufs⟩ := List.forall_mem_cons.mp hbufs
      have hrest := ih (h.release hbuf hheld) hnodup fun buf' hbuf' =>
        ⟨(hbufs buf' hbuf').1, Finset.mem_erase.mpr
          ⟨fun heq => hnew (heq ▸ hbuf'), (hbufs buf' hbuf').2⟩⟩
      have hsplit : held.erase buf \ bufs.toFinset = held \ (buf :: bufs).toFinset := by
        ext p
        simp only [Finset.mem_sdiff, Finset.mem_erase, List.mem_toFinset, List.mem_cons]
        tauto
      rw [hsplit] at hrest
      simpa using hrest

/-- The allocation puts the buffers on the list, the last one first. -/
theorem Buffers.Split.allocate (virtToPhys : Word → Word) (uvOffset : ℤ)
    (h : b.Split pool held free) {grants : List Grant} (hnodup : (grants.map Grant.node).Nodup)
    (hnodes : ∀ g ∈ grants, g.node ≠ 0 ∧ g.node ∉ pool) :
    (b.outputAllocate virtToPhys uvOffset grants).Split (pool ∪ (grants.map Grant.node).toFinset)
      held ((grants.map Grant.node).reverse ++ free) := by
  induction grants generalizing b pool free with
  | nil => simpa [Buffers.outputAllocate] using h
  | cons g grants ih =>
      rw [List.map_cons, List.nodup_cons] at hnodup
      obtain ⟨hnew, hnodup⟩ := hnodup
      obtain ⟨⟨hnode, hfresh⟩, hnodes⟩ := List.forall_mem_cons.mp hnodes
      have hpush : Buffers.Split ⟨g.node, Function.update b.mem g.node
          ⟨g.block, virtToPhys g.block, virtToPhys (g.block + BitVec.ofInt 32 uvOffset), b.head⟩⟩
          (insert g.node pool) held (g.node :: free) := by
        refine Pool.push_new h hnode hfresh ?_ ?_
        · simp [Buffers.next]
        · intro p (hp : p ≠ g.node)
          simp [Buffers.next, hp]
      have hrest := ih hpush hnodup fun g' hg' => ⟨(hnodes g' hg').1, ?_⟩
      · simpa [Buffers.outputAllocate] using hrest
      · rw [Finset.mem_insert, not_or]
        refine ⟨fun heq => hnew ?_, (hnodes g' hg').2⟩
        exact heq ▸ List.mem_map_of_mem hg'

end FreeList

end Libdce.Sample
