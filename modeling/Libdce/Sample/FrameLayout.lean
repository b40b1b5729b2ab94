import Libdce.Foundation.CheckedInt

/-!
# The layout of a frame

`main` rounds the size of a frame up to macroblocks, pads it, and chooses a stride for the
mode it was asked for. `output_allocate` is told the stride and not the mode: it takes
4096 to mean two-dimensional buffers.

## Implementation notes

The sizes are `int`s, so every computation is partial; one that has a value has not
overflowed. Of a descriptor and of a block for the allocator only the fields that the
sample sets are modelled, and the addresses are left to the code that has them.
-/

namespace Libdce.Sample

open Foundation.CheckedInt

/-- `PADX`. -/
def padX : ℤ := 32

/-- `PADY`. -/
def padY : ℤ := 24

/-- `ALIGN2`: the next multiple of `2^n`. -/
def align2 (x : ℤ) (n : ℕ) : Option ℤ := do
  let y ← add x (2 ^ n - 1)
  return clearLow y n

/-- What `main` computes from its arguments. -/
structure FrameSizes where
  width : ℤ
  height : ℤ
  paddedWidth : ℤ
  paddedHeight : ℤ
  numBuffers : ℤ
  stride : ℤ
  deriving DecidableEq, Repr

/-- The sizes for the width and the height on the command line, with `-1` or without. -/
def frameSizes (oned : Bool) (width height : ℤ) : Option FrameSizes := do
  let width ← align2 width 4
  let height ← align2 height 4
  let paddedWidth ← align2 (← add width (2 * padX)) 7
  let paddedHeight ← add height (4 * padY)
  let macroblocks ← mul (← div width 16) (← div height 16)
  let numBuffers ← add (min 16 (← div 32768 macroblocks)) 3
  let stride := if oned then paddedWidth else 4096
  return ⟨width, height, paddedWidth, paddedHeight, numBuffers, stride⟩

/-- `XDM_MemoryType`. -/
inductive MemType where
  | raw
  | tiled8
  | tiled16
  | tiled32
  | tiledPage
  deriving DecidableEq, Repr

/-- `XDM2_BufSize`, a union. -/
inductive BufSize where
  | tileMem (width height : ℤ)
  | bytes (bytes : ℤ)
  deriving DecidableEq, Repr

/-- A descriptor of `XDM2_BufDesc`. -/
structure BufDesc where
  memType : MemType
  bufSize : BufSize
  deriving DecidableEq, Repr

/-- `pixelFormat` of a block for the allocator. -/
inductive PixelFormat where
  | page
  | bit8
  | bit16
  deriving DecidableEq, Repr

/-- `dim` of a block for the allocator, a union. -/
inductive Dim where
  | len (len : ℤ)
  | area (width height : ℤ)
  deriving DecidableEq, Repr

/-- `MemAllocBlock`. -/
structure MemAllocBlock where
  pixelFormat : PixelFormat
  dim : Dim
  deriving DecidableEq, Repr

/-- `tiler_alloc`: the blocks it asks for. -/
def tilerAlloc (width height : ℤ) : Option (List MemAllocBlock) :=
  if height = 0 then some [⟨.page, .len width⟩]
  else do
    let half ← div height 2
    return [⟨.bit8, .area width height⟩, ⟨.bit16, .area width half⟩]

/-- What `output_allocate` settles for all its buffers. -/
structure OutputLayout where
  numBufs : ℤ
  y : BufDesc
  uv : BufDesc
  blocks : List MemAllocBlock
  /-- `buf->uv` is the address of the byte this far into the buffer. -/
  uvOffset : ℤ
  deriving DecidableEq, Repr

/-- `output_allocate`, before its loop: the descriptors, and the buffers it will ask for. -/
def outputLayout (width height stride : ℤ) : Option OutputLayout := do
  if stride ≠ 4096 then
    let sizeY ← mul stride height
    let sizeUV ← div (← mul stride height) 2
    let tw ← add sizeY sizeUV
    return ⟨2, ⟨.tiledPage, .bytes sizeY⟩, ⟨.tiledPage, .bytes sizeUV⟩, ← tilerAlloc tw 0,
      ← mul height stride⟩
  else
    return ⟨2, ⟨.tiled8, .tileMem width height⟩, ⟨.tiled16, .tileMem width (← div height 2)⟩,
      ← tilerAlloc width height, ← mul height stride⟩

section Sizes

variable {oned : Bool} {w h x a : ℤ} {n : ℕ} {sizes : FrameSizes}

theorem align2_eq_some_iff :
    align2 x n = some a ↔ InRange (x + (2 ^ n - 1)) ∧ 2 ^ n * ((x + (2 ^ n - 1)) / 2 ^ n) = a := by
  simp [align2, Option.bind_eq_some_iff, add_eq_some_iff, clearLow_eq, and_assoc]

/-- The values of the sizes. -/
structure FrameSizes.Computed (oned : Bool) (w h : ℤ) (sizes : FrameSizes) : Prop where
  width : sizes.width = 16 * ((w + 15) / 16)
  height : sizes.height = 16 * ((h + 15) / 16)
  paddedWidth : sizes.paddedWidth = 128 * ((sizes.width + 191) / 128)
  paddedHeight : sizes.paddedHeight = sizes.height + 96
  macroblocks : (sizes.width.tdiv 16) * (sizes.height.tdiv 16) ≠ 0
  numBuffers : sizes.numBuffers =
    min 16 (Int.tdiv 32768 ((sizes.width.tdiv 16) * (sizes.height.tdiv 16))) + 3
  stride : sizes.stride = if oned then sizes.paddedWidth else 4096

theorem frameSizes_computed (hsizes : frameSizes oned w h = some sizes) :
    sizes.Computed oned w h := by
  simp only [frameSizes, Option.bind_eq_bind, Option.bind_eq_some_iff, Option.pure_def,
    Option.some.injEq, align2_eq_some_iff, add_eq_some_iff, mul_eq_some_iff, div_eq_some_iff,
    padX, padY] at hsizes
  obtain ⟨width, ⟨-, hwidth⟩, height, ⟨-, hheight⟩, _, ⟨-, rfl⟩, paddedWidth, ⟨-, hpaddedWidth⟩,
    _, ⟨-, rfl⟩, _, ⟨-, -, rfl⟩, _, ⟨-, -, rfl⟩, _, ⟨-, rfl⟩, _, ⟨hmacroblocks, -, rfl⟩, _,
    ⟨-, rfl⟩, rfl⟩ := hsizes
  refine ⟨?_, ?_, ?_, ?_, hmacroblocks, rfl, rfl⟩
  · dsimp only
    omega
  · dsimp only
    omega
  · dsimp only
    omega
  · dsimp only
    omega

/-- A positive size takes at least a macroblock. -/
theorem FrameSizes.Computed.pos (hsizes : sizes.Computed oned w h) (hw : 0 < w) (hh : 0 < h) :
    16 ≤ sizes.width ∧ 16 ≤ sizes.height ∧ 128 ≤ sizes.paddedWidth ∧ 112 ≤ sizes.paddedHeight := by
  have hwidth := hsizes.width
  have hheight := hsizes.height
  have hpaddedWidth := hsizes.paddedWidth
  have hpaddedHeight := hsizes.paddedHeight
  omega

/-- A decoder gets at least three buffers, and at most nineteen. -/
theorem FrameSizes.Computed.numBuffers_bounds (hsizes : sizes.Computed oned w h) (hw : 0 < w)
    (hh : 0 < h) : 3 ≤ sizes.numBuffers ∧ sizes.numBuffers ≤ 19 := by
  obtain ⟨hwidth, hheight, -, -⟩ := hsizes.pos hw hh
  have hmacroblocks : 0 ≤ (sizes.width.tdiv 16) * (sizes.height.tdiv 16) :=
    mul_nonneg (Int.tdiv_nonneg (by omega) (by norm_num)) (Int.tdiv_nonneg (by omega) (by norm_num))
  have hdiv := Int.tdiv_nonneg (show (0 : ℤ) ≤ 32768 by norm_num) hmacroblocks
  rw [hsizes.numBuffers]
  omega

end Sizes

section Layout

variable {width height stride : ℤ} {layout : OutputLayout}

/-- The buffers are one-dimensional, made of pages. -/
def OutputLayout.OneDimensional (layout : OutputLayout) : Prop :=
  layout.y.memType = .tiledPage ∧ layout.uv.memType = .tiledPage ∧
    ∃ len, layout.blocks = [⟨.page, .len len⟩]

/-- How many bytes from its start the Y plane ends. The rows of a two-dimensional buffer
lie 4096 bytes apart. -/
def OutputLayout.yEnd (layout : OutputLayout) : ℤ :=
  match layout.y.bufSize with
  | .bytes bytes => bytes
  | .tileMem _ height => height * 4096

theorem outputLayout_of_ne (hstride : stride ≠ 4096)
    (hlayout : outputLayout width height stride = some layout) :
    ∃ sizeY sizeUV, layout = ⟨2, ⟨.tiledPage, .bytes sizeY⟩, ⟨.tiledPage, .bytes sizeUV⟩,
      [⟨.page, .len (sizeY + sizeUV)⟩], height * stride⟩ ∧ sizeY = height * stride := by
  simp only [outputLayout, if_pos hstride, tilerAlloc, if_true, Option.bind_eq_bind,
    Option.bind_eq_some_iff, Option.pure_def, Option.some.injEq, add_eq_some_iff, mul_eq_some_iff,
    div_eq_some_iff] at hlayout
  obtain ⟨sizeY, ⟨-, rfl⟩, _, -, sizeUV, -, _, ⟨-, rfl⟩, _, rfl, _, ⟨-, rfl⟩, rfl⟩ := hlayout
  exact ⟨stride * height, sizeUV, rfl, mul_comm _ _⟩

theorem outputLayout_of_eq (hheight : height ≠ 0)
    (hlayout : outputLayout width height 4096 = some layout) :
    layout = ⟨2, ⟨.tiled8, .tileMem width height⟩, ⟨.tiled16, .tileMem width (height.tdiv 2)⟩,
      [⟨.bit8, .area width height⟩, ⟨.bit16, .area width (height.tdiv 2)⟩], height * 4096⟩ := by
  simp only [outputLayout, ne_eq, not_true, if_false, tilerAlloc, if_neg hheight, Option.bind_eq_bind,
    Option.bind_eq_some_iff, Option.pure_def, Option.some.injEq, mul_eq_some_iff,
    div_eq_some_iff] at hlayout
  obtain ⟨half, ⟨-, -, rfl⟩, _, ⟨_, ⟨-, -, rfl⟩, rfl⟩, _, ⟨-, rfl⟩, rfl⟩ := hlayout
  rfl

theorem inRange_of_outputLayout (hlayout : outputLayout width height stride = some layout) :
    InRange (height * stride) := by
  rw [outputLayout] at hlayout
  split at hlayout
  · simp only [Option.bind_eq_bind, Option.bind_eq_some_iff, mul_eq_some_iff] at hlayout
    obtain ⟨_, -, _, -, _, -, _, -, _, -, _, ⟨hrange, -⟩, -⟩ := hlayout
    exact hrange
  · simp only [Option.bind_eq_bind, Option.bind_eq_some_iff, mul_eq_some_iff] at hlayout
    obtain ⟨_, -, _, -, _, ⟨hrange, -⟩, -⟩ := hlayout
    exact hrange

/-- The chroma plane begins where the luma plane ends. -/
theorem uvOffset_of_outputLayout (hheight : height ≠ 0)
    (hlayout : outputLayout width height stride = some layout) :
    layout.uvOffset = height * stride ∧ layout.yEnd = layout.uvOffset := by
  by_cases hstride : stride = 4096
  · subst hstride
    rw [outputLayout_of_eq hheight hlayout]
    exact ⟨rfl, rfl⟩
  · obtain ⟨sizeY, sizeUV, rfl, hsizeY⟩ := outputLayout_of_ne hstride hlayout
    exact ⟨rfl, hsizeY⟩

/-- The mode that is found out from the stride. -/
theorem oneDimensional_iff (hheight : height ≠ 0)
    (hlayout : outputLayout width height stride = some layout) :
    layout.OneDimensional ↔ stride ≠ 4096 := by
  by_cases hstride : stride = 4096
  · subst hstride
    rw [outputLayout_of_eq hheight hlayout]
    simp [OutputLayout.OneDimensional]
  · obtain ⟨sizeY, sizeUV, rfl, -⟩ := outputLayout_of_ne hstride hlayout
    simp [OutputLayout.OneDimensional, hstride]

/-- The planes of a one-dimensional buffer fill it. -/
theorem len_of_outputLayout (hheight : height ≠ 0) {len : ℤ}
    (hlayout : outputLayout width height stride = some layout)
    (hblocks : layout.blocks = [⟨.page, .len len⟩]) :
    ∃ sizeY sizeUV, layout.y.bufSize = .bytes sizeY ∧ layout.uv.bufSize = .bytes sizeUV ∧
      sizeY + sizeUV = len := by
  by_cases hstride : stride = 4096
  · subst hstride
    rw [outputLayout_of_eq hheight hlayout] at hblocks
    simp at hblocks
  · obtain ⟨sizeY, sizeUV, rfl, -⟩ := outputLayout_of_ne hstride hlayout
    simp only [List.cons.injEq, MemAllocBlock.mk.injEq, Dim.len.injEq, true_and, and_true] at hblocks
    exact ⟨sizeY, sizeUV, rfl, rfl, hblocks⟩

end Layout

/-- The layout is the one for the mode that was asked for. -/
structure Agree (oned : Bool) (sizes : FrameSizes) (layout : OutputLayout) : Prop where
  mode : layout.OneDimensional ↔ oned
  rows : sizes.paddedWidth ≤ sizes.stride
  whole : ∀ len, layout.blocks = [⟨.page, .len len⟩] → ∃ sizeY sizeUV,
    layout.y.bufSize = .bytes sizeY ∧ layout.uv.bufSize = .bytes sizeUV ∧ sizeY + sizeUV = len
  uv : layout.uvOffset = sizes.paddedHeight * sizes.stride ∧ layout.yEnd = layout.uvOffset

/-- The stride of a one-dimensional frame is 4096 for some widths, and wide frames have
no two-dimensional layout; for all others the mode is met. -/
theorem frame_layout_agrees_iff (oned : Bool) {w h : ℤ} (hw : 0 < w) (hh : 0 < h)
    {sizes : FrameSizes} {layout : OutputLayout} (hsizes : frameSizes oned w h = some sizes)
    (hlayout : outputLayout sizes.paddedWidth sizes.paddedHeight sizes.stride = some layout) :
    Agree oned sizes layout ↔ if oned then w ≤ 3904 ∨ 4032 < w else w ≤ 4032 := by
  have hcomputed := frameSizes_computed hsizes
  have hwidth := hcomputed.width
  have hpaddedWidth := hcomputed.paddedWidth
  have hheight : sizes.paddedHeight ≠ 0 := by
    have hpos := (hcomputed.pos hw hh).2.2.2
    omega
  have hmode := oneDimensional_iff hheight hlayout
  have hagree : Agree oned sizes layout ↔
      (sizes.stride ≠ 4096 ↔ oned) ∧ sizes.paddedWidth ≤ sizes.stride := by
    constructor
    · exact fun hagree => ⟨hmode.symm.trans hagree.mode, hagree.rows⟩
    · rintro ⟨hasked, hrows⟩
      exact ⟨hmode.trans hasked, hrows, fun len => len_of_outputLayout hheight hlayout,
        uvOffset_of_outputLayout hheight hlayout⟩
  rw [hagree, hcomputed.stride]
  cases oned with
  | false =>
      simp only [Bool.false_eq_true, if_false, ne_eq, not_true, true_and]
      omega
  | true =>
      simp only [if_true, iff_true, le_refl, and_true]
      omega

theorem frame_layout_agrees_iff_hd : Agree true ⟨1280, 720, 1408, 816, 12, 1408⟩
    ⟨2, ⟨.tiledPage, .bytes 1148928⟩, ⟨.tiledPage, .bytes 574464⟩, [⟨.page, .len 1723392⟩],
      1148928⟩ :=
  (frame_layout_agrees_iff true (w := 1280) (h := 720) (by norm_num) (by norm_num)
    (by decide +kernel) (by decide +kernel)).mpr (by decide)

/-- Asked for one-dimensional buffers for a width of 3920, the sample allocates
two-dimensional ones. -/
theorem frame_layout_disagrees : ∃ sizes layout, frameSizes true 3920 16 = some sizes ∧
    outputLayout sizes.paddedWidth sizes.paddedHeight sizes.stride = some layout ∧
    ¬Agree true sizes layout := by
  refine ⟨⟨3920, 16, 4096, 112, 19, 4096⟩, ⟨2, ⟨.tiled8, .tileMem 4096 112⟩,
    ⟨.tiled16, .tileMem 4096 56⟩, [⟨.bit8, .area 4096 112⟩, ⟨.bit16, .area 4096 56⟩], 458752⟩,
    by decide +kernel, by decide +kernel, ?_⟩
  intro hagree
  have hpages := (hagree.mode.mpr rfl).1
  cases hpages

end Libdce.Sample
