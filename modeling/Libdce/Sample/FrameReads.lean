import Libdce.Foundation.Allocation
import Libdce.Sample.Display

/-!
# What is read of a buffer

`write_output` hands the bytes of a frame to the device piece by piece. The loops are run here
with the extents of memory that the device may read, the luma plane and the chroma plane
apart; without the extents they are the loops of `write_output`.

A picture that does not leave the rows and the columns of a buffer is read from inside the two
planes. In an odd row the chroma samples are read from the middle of a row on, and the last
row ends in the middle of one.

## Implementation notes

An extent is what a write is asked for, whatever part of it the device accepts.
-/

namespace Libdce.Sample

open Foundation.Bytes Foundation.CheckedInt Foundation.Allocation Foundation.PartialTransfers

variable {φ : Type*} (dev : Device φ) (ram : Buffer)

/-- A writer, with what has been read of memory. -/
structure Traced (φ : Type*) where
  writer : Writer φ
  reads : List Extent

/-- The inner loop on a row of `len` bytes at the address `p`. -/
def tracedRow (p len : ℕ) (w : Writer φ) : Traced φ :=
  if len = 0 then ⟨w, []⟩
  else
    let n := (w.file.write dev (ram.advance p) len).1
    let file := (w.file.write dev (ram.advance p) len).2
    if 0 < n then
      let rest := tracedRow (p + n.toNat) (len - n.toNat) ⟨file, w.sz + n⟩
      ⟨rest.writer, ⟨p, len⟩ :: rest.reads⟩
    else ⟨⟨file, w.sz⟩, [⟨p, len⟩]⟩
termination_by len
decreasing_by omega

/-- The outer loop on some rows of `width` bytes, `stride` bytes apart, the first one at the
address `y`. -/
def tracedRows (width stride : ℕ) : ℕ → ℕ → Writer φ → Traced φ
  | 0, _, w => ⟨w, []⟩
  | rows + 1, y, w =>
      let row := tracedRow dev ram y width w
      let rest := tracedRows width stride rows (y + stride) row.writer
      ⟨rest.writer, row.reads ++ rest.reads⟩

/-- What `write_output` returns and leaves, with what it reads of the planes. -/
structure FrameReads (φ : Type*) where
  result : ℤ × Option (OpenFile φ)
  luma : List Extent
  chroma : List Extent

/-- `write_output` of the planes at the addresses `y` and `uv`. -/
def tracedOutput (width height stride y uv : ℕ) (opened : Option (List Byte)) (device : φ) :
    FrameReads φ :=
  match opened with
  | none => ⟨(0, none), [], []⟩
  | some old =>
      let luma := tracedRows dev ram width stride height y ⟨.opened old device, 0⟩
      let chroma := tracedRows dev ram width stride (height / 2) uv luma.writer
      ⟨(chroma.writer.sz, some chroma.writer.file), luma.reads, chroma.reads⟩

/-- What a call reads. -/
def FrameCall.reads (sizes : FrameSizes) (opened : Option (List Byte)) (device : φ)
    (call : FrameCall) : FrameReads φ :=
  tracedOutput dev ram sizes.width.toNat sizes.height.toNat sizes.stride.toNat call.y.toNat
    call.uv.toNat opened device

section Erasure

variable {dev ram}

theorem advance_advance (i j : ℕ) : (ram.advance i).advance j = ram.advance (i + j) := by
  funext k
  simp only [Buffer.advance, Nat.add_assoc]

theorem tracedRow_writer (p len : ℕ) (w : Writer φ) :
    (tracedRow dev ram p len w).writer = writeRow dev (ram.advance p) len w := by
  induction len using Nat.strong_induction_on generalizing p w with
  | _ len ih =>
      rw [tracedRow, writeRow]
      by_cases hlen : len = 0
      · rw [if_pos hlen, if_pos hlen]
      · rw [if_neg hlen, if_neg hlen]
        dsimp only
        by_cases hn : 0 < (w.file.write dev (ram.advance p) len).1
        · rw [if_pos hn, if_pos hn, advance_advance]
          exact ih _ (by omega) _ _
        · rw [if_neg hn, if_neg hn]

theorem tracedRows_writer (width stride rows y : ℕ) (w : Writer φ) :
    (tracedRows dev ram width stride rows y w).writer =
      writeRows dev width stride rows (ram.advance y) w := by
  induction rows generalizing y w with
  | zero => rfl
  | succ rows ih =>
      rw [tracedRows, writeRows, advance_advance, ← tracedRow_writer]
      exact ih _ _

/-- Without the extents, the call does what it does. -/
theorem reads_result (sizes : FrameSizes) (opened : Option (List Byte)) (device : φ)
    (call : FrameCall) :
    (call.reads dev ram sizes opened device).result = call.write dev sizes ram opened device := by
  cases opened with
  | none => rfl
  | some old =>
      simp only [FrameCall.reads, FrameCall.write, tracedOutput, writeOutput, tracedRows_writer]

end Erasure

section Extents

variable {dev ram}

/-- A row is read inside of it. -/
theorem within_of_mem_tracedRow (p len : ℕ) (w : Writer φ) :
    ∀ e ∈ (tracedRow dev ram p len w).reads, e.Within ⟨p, len⟩ := by
  induction len using Nat.strong_induction_on generalizing p w with
  | _ len ih =>
      intro e he
      rw [tracedRow] at he
      by_cases hlen : len = 0
      · rw [if_pos hlen] at he
        exact absurd he List.not_mem_nil
      · rw [if_neg hlen] at he
        dsimp only at he
        have hle : (w.file.write dev (ram.advance p) len).1 ≤ len := min_le_right _ _
        by_cases hn : 0 < (w.file.write dev (ram.advance p) len).1
        · rw [if_pos hn, List.mem_cons] at he
          obtain rfl | hrest := he
          · exact ⟨le_rfl, le_rfl⟩
          · obtain ⟨hlo, hhi⟩ := ih _ (by omega) _ _ e hrest
            dsimp only at hlo hhi
            constructor
            · dsimp only
              omega
            · dsimp only
              omega
        · rw [if_neg hn, List.mem_singleton] at he
          rw [he]
          exact ⟨le_rfl, le_rfl⟩

/-- Every row is. -/
theorem within_of_mem_tracedRows (width stride rows y : ℕ) (w : Writer φ) :
    ∀ e ∈ (tracedRows dev ram width stride rows y w).reads,
      ∃ i < rows, e.Within ⟨y + i * stride, width⟩ := by
  induction rows generalizing y w with
  | zero => exact fun e he => absurd he List.not_mem_nil
  | succ rows ih =>
      intro e he
      obtain hrow | hrest := List.mem_append.mp he
      · refine ⟨0, Nat.succ_pos rows, ?_⟩
        rw [Nat.zero_mul, Nat.add_zero]
        exact within_of_mem_tracedRow _ _ _ e hrow
      · obtain ⟨i, hi, hwithin⟩ := ih _ _ e hrest
        refine ⟨i + 1, Nat.succ_lt_succ hi, ?_⟩
        rw [Nat.succ_mul, Nat.add_comm (i * stride), ← Nat.add_assoc]
        exact hwithin

/-- Rows that end before some place are read before it. -/
theorem within_plane {width stride rows start offset size : ℕ} {w : Writer φ}
    (hrows : ∀ i < rows, offset + i * stride + width ≤ size) :
    ∀ e ∈ (tracedRows dev ram width stride rows (start + offset) w).reads,
      e.Within ⟨start, size⟩ := by
  intro e he
  obtain ⟨i, hi, hlo, hhi⟩ := within_of_mem_tracedRows _ _ _ _ _ e he
  have hend := hrows i hi
  dsimp only at hlo hhi
  constructor
  · dsimp only
    omega
  · dsimp only
    omega

/-- Planes whose rows end with them are read inside of them. -/
theorem within_planes {width height stride start plane yoff uvoff : ℕ}
    (hluma : ∀ i < height, yoff + i * stride + width ≤ plane)
    (hchroma : ∀ i < height / 2, uvoff + i * stride + width ≤ plane / 2)
    (opened : Option (List Byte)) (device : φ) :
    let reads := tracedOutput dev ram width height stride (start + yoff) (start + plane + uvoff)
      opened device
    (∀ e ∈ reads.luma, e.Within ⟨start, plane⟩) ∧
      ∀ e ∈ reads.chroma, e.Within ⟨start + plane, plane / 2⟩ := by
  cases opened with
  | none => exact ⟨fun e he => absurd he List.not_mem_nil, fun e he => absurd he List.not_mem_nil⟩
  | some old => exact ⟨within_plane hluma, within_plane hchroma⟩

end Extents

section Rows

variable {width height stride rows x y i : ℕ}

/-- Some rows from a place on end with the plane. -/
theorem luma_row_end (hx : x + width ≤ stride) (hy : y + height ≤ rows) (hi : i < height) :
    y * stride + x + i * stride + width ≤ stride * rows :=
  calc
    y * stride + x + i * stride + width ≤ (y + i + 1) * stride := by
      rw [Nat.add_mul, Nat.add_mul, Nat.one_mul]
      omega
    _ ≤ rows * stride := Nat.mul_le_mul_right stride (by omega)
    _ = stride * rows := Nat.mul_comm _ _

/-- Half as many rows from the half of the place on end with half of the plane, also when the
half of the place is in the middle of a row. -/
theorem chroma_row_end (hx : x + width ≤ stride) (hy : y + height ≤ rows) (hi : i < height / 2) :
    y * stride / 2 + x + i * stride + width ≤ stride * rows / 2 := by
  have hrows : (y + height) * stride ≤ stride * rows := by
    rw [Nat.mul_comm stride]
    exact Nat.mul_le_mul_right stride hy
  have hhalf : (i + 1) * stride * 2 ≤ height * stride := by
    rw [Nat.mul_right_comm]
    exact Nat.mul_le_mul_right stride (by omega)
  rw [Nat.add_mul] at hrows
  rw [Nat.add_mul, Nat.one_mul] at hhalf
  omega

end Rows

/-- A picture of the frame's size at this place stays in the rows and columns of a buffer. -/
structure FrameSizes.InBuffer (sizes : FrameSizes) (r : Point) : Prop where
  left : 0 ≤ r.x
  right : r.x + sizes.width ≤ sizes.stride
  top : 0 ≤ r.y
  bottom : r.y + sizes.height ≤ sizes.paddedHeight

/-- The `int`s that are added to the address of a buffer: `yoff`, `uvoff` and
`stride * padded_height`. -/
def frameOffsets (sizes : FrameSizes) (r : Point) : Option (ℤ × ℤ × ℤ) := do
  let yoff ← add (← mul r.y sizes.stride) r.x
  let uvoff ← add (← div (← mul r.y sizes.stride) 2) r.x
  let plane ← mul sizes.stride sizes.paddedHeight
  return (yoff, uvoff, plane)

section Offsets

variable {sizes : FrameSizes} {r : Point}

/-- If the plane fits in an `int`, the offsets of a picture in it do. -/
theorem frameOffsets_eq (hwidth : 0 < sizes.width) (hheight : 0 < sizes.height)
    (hr : sizes.InBuffer r) (hplane : InRange (sizes.stride * sizes.paddedHeight)) :
    frameOffsets sizes r = some (r.y * sizes.stride + r.x, (r.y * sizes.stride).tdiv 2 + r.x,
      sizes.stride * sizes.paddedHeight) := by
  obtain ⟨hleft, hright, htop, hbottom⟩ := hr
  have hrow : 0 ≤ r.y * sizes.stride := mul_nonneg htop (by omega)
  have hlast : (r.y + 1) * sizes.stride ≤ sizes.paddedHeight * sizes.stride :=
    mul_le_mul_of_nonneg_right (by omega) (by omega)
  have hhalved : (r.y * sizes.stride).tdiv 2 = r.y * sizes.stride / 2 :=
    Int.tdiv_eq_ediv_of_nonneg hrow
  rw [add_mul, one_mul, mul_comm sizes.paddedHeight] at hlast
  have hhigh := hplane.2
  have hstart : mul r.y sizes.stride = some (r.y * sizes.stride) :=
    mul_eq_some_iff.mpr ⟨⟨by omega, by omega⟩, rfl⟩
  have hhalf : div (r.y * sizes.stride) 2 = some ((r.y * sizes.stride).tdiv 2) := by
    rw [div_eq_some_iff, hhalved]
    exact ⟨by norm_num, ⟨by omega, by omega⟩, rfl⟩
  have hyoff : add (r.y * sizes.stride) r.x = some (r.y * sizes.stride + r.x) :=
    add_eq_some_iff.mpr ⟨⟨by omega, by omega⟩, rfl⟩
  have huvoff : add ((r.y * sizes.stride).tdiv 2) r.x = some ((r.y * sizes.stride).tdiv 2 + r.x) := by
    rw [add_eq_some_iff, hhalved]
    exact ⟨⟨by omega, by omega⟩, rfl⟩
  have hplanes := mul_eq_some_iff.mpr ⟨hplane, rfl⟩
  simp only [frameOffsets, hstart, hhalf, hyoff, huvoff, hplanes, Option.bind_eq_bind,
    Option.bind_some]
  rfl

end Offsets

/-- A displayed picture that does not leave the rows and columns of its buffer is read from
inside the two planes, with offsets that fit in an `int` if the size of the plane does. -/
theorem frame_reads_inside (ram : Buffer) {sizes : FrameSizes} {args : OutArgs} {shown : List Word}
    (hwidth : 0 < sizes.width) (hheight : 0 < sizes.height)
    (hplane : InRange (sizes.stride * sizes.paddedHeight)) (hplace : sizes.InBuffer (args.topLeft 0))
    (hshown : scanIds args.outputID.ids = some shown) (mem : Word → OutputBuffer) (outCnt : ℤ)
    {i : ℕ} (hi : i < shown.length) (opened : Option (List Byte)) (device : φ) :
    ∃ calls call yoff uvoff plane, displayFrames sizes mem args outCnt = some calls ∧
      calls[i]? = some call ∧
      frameOffsets sizes (args.topLeft 0) = some (yoff, uvoff, plane) ∧
      let buf := (mem shown[i]).buf.toNat
      let reads := call.reads dev ram sizes opened device
      call = ⟨outCnt + i, buf + yoff, buf + uvoff + plane⟩ ∧
      reads.result = call.write dev sizes ram opened device ∧
      (∀ e ∈ reads.luma, e.Within ⟨buf, plane.toNat⟩) ∧
      ∀ e ∈ reads.chroma, e.Within ⟨buf + plane.toNat, plane.toNat / 2⟩ := by
  have hleft := hplace.left
  have hright := hplace.right
  have htop := hplace.top
  have hbottom := hplace.bottom
  have hstride : 0 ≤ sizes.stride := by omega
  have hrows : 0 ≤ sizes.paddedHeight := by omega
  obtain ⟨hcalls, hcall⟩ := displayFrames_of_scan sizes mem hshown outCnt hi
  refine ⟨_, _, _, _, _, hcalls, hcall, frameOffsets_eq hwidth hheight hplace hplane, rfl,
    reads_result sizes opened device _, ?_⟩
  obtain ⟨hluma, hchroma⟩ := frameCall_places hstride hrows hleft htop mem shown[i] (outCnt + i)
  rw [FrameCall.reads, hluma, hchroma, Int.toNat_mul hstride hrows]
  apply within_planes
  · intro row hrow
    exact luma_row_end (by omega) (by omega) hrow
  · intro row hrow
    exact chroma_row_end (by omega) (by omega) hrow

/-- Two frames in an odd row and column. -/
def oddFrames : OutArgs := { twoFrames ⟨33, 25⟩ with topLeft := fun _ => ⟨33, 25⟩ }

/-- The chroma samples of the second of the odd frames are read from inside its second plane. -/
theorem frame_reads_inside_odd : ∃ calls call,
    displayFrames smallest twoBuffers oddFrames 0 = some calls ∧ calls[1]? = some call ∧
      ∀ e ∈ (call.reads threeAtATime (fun _ => 0) smallest (some []) ()).chroma,
        e.Within ⟨0x102000 + 14336, 7168⟩ := by
  have hvalue : frameOffsets smallest ⟨33, 25⟩ = some (3233, 1633, 14336) := by decide +kernel
  have hwidth : 0 < smallest.width := by decide
  have hsize : InRange (smallest.stride * smallest.paddedHeight) := by decide
  have hplace : smallest.InBuffer (oddFrames.topLeft 0) :=
    ⟨by decide, by decide, by decide, by decide⟩
  have hshown : scanIds oddFrames.outputID.ids = some [0x1000, 0x2000] :=
    scanIds_twoFrames ⟨33, 25⟩
  obtain ⟨calls, call, yoff, uvoff, plane, hcalls, hcall, hoffsets, -, -, -, hchroma⟩ :=
    frame_reads_inside threeAtATime (fun _ => 0) hwidth (by decide) hsize hplace hshown twoBuffers 0
      (Nat.lt_succ_self 1) (some []) ()
  have hplane : plane = 14336 := by
    have hsome := hvalue.symm.trans hoffsets
    simp only [Option.some.injEq, Prod.mk.injEq] at hsome
    exact hsome.2.2.symm
  refine ⟨calls, call, hcalls, hcall, ?_⟩
  rw [hplane] at hchroma
  exact hchroma

end Libdce.Sample
