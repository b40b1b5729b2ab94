import Libdce.Sample.OutputBuffers
import Libdce.Sample.OutputFrames

/-!
# Displaying frames

A process call names the buffers that are to be displayed, with a descriptor for each that
says where in the buffer the picture is. The sample writes them to files one after the
other, every one at the place that the first descriptor gives.

## Implementation notes

The offsets are computed in integers; for a region inside a frame whose size does not
overflow they fit in an `int`. An address is a number, and the memory of the host a
function of it.
-/

namespace Libdce.Sample

open Foundation.Bytes Foundation.PartialTransfers Foundation.CheckedInt

/-- `IVIDEO2_MAX_IO_BUFFERS`. -/
def maxIoBuffers : ℕ := 20

/-- An array of ids in `IVIDDEC3_OutArgs`. -/
structure IdArray where
  ids : List Word
  length_ids : ids.length = maxIoBuffers

/-- Some ids, and zeros up to the end of the array. -/
def IdArray.ofList (ids : List Word) (h : ids.length ≤ maxIoBuffers) : IdArray :=
  ⟨ids ++ List.replicate (maxIoBuffers - ids.length) 0, by
    rw [List.length_append, List.length_replicate, Nat.add_sub_cancel' h]⟩

/-- A loop `for (i = 0; ids[i]; i++)`: the ids that it comes to, or nothing if it leaves
the array. -/
def scanIds : List Word → Option (List Word)
  | [] => none
  | id :: ids => if id = 0 then some [] else (scanIds ids).map (id :: ·)

/-- `XDM_Point`. -/
structure Point where
  x : ℤ
  y : ℤ
  deriving DecidableEq, Repr

/-- What the sample reads of `IVIDDEC3_OutArgs`; `topLeft i` is in the active region of
`displayBufs.bufDesc[i]`. -/
structure OutArgs where
  outputID : IdArray
  freeBufID : IdArray
  topLeft : ℕ → Point

/-- A call of `write_output`: the number of the file and the addresses of the planes. -/
structure FrameCall where
  cnt : ℤ
  y : ℤ
  uv : ℤ
  deriving DecidableEq, Repr

/-- A turn of the loop that displays. -/
def frameCall (sizes : FrameSizes) (mem : Word → OutputBuffer) (args : OutArgs) (id : Word)
    (outCnt : ℤ) : FrameCall :=
  let r := args.topLeft 0
  let yoff := r.y * sizes.stride + r.x
  let uvoff := (r.y * sizes.stride).tdiv 2 + r.x
  let buf : ℤ := (mem id).buf.toNat
  ⟨outCnt, buf + yoff, buf + uvoff + sizes.stride * sizes.paddedHeight⟩

/-- The loop that displays: the calls it makes for some ids. -/
def displayLoop (sizes : FrameSizes) (mem : Word → OutputBuffer) (args : OutArgs) :
    List Word → ℤ → List FrameCall
  | [], _ => []
  | id :: ids, outCnt =>
      frameCall sizes mem args id outCnt :: displayLoop sizes mem args ids (outCnt + 1)

/-- The calls for the frames that a process call gives out, if the ids end in the array. -/
def displayFrames (sizes : FrameSizes) (mem : Word → OutputBuffer) (args : OutArgs) (outCnt : ℤ) :
    Option (List FrameCall) :=
  (scanIds args.outputID.ids).map fun ids => displayLoop sizes mem args ids outCnt

/-- What a call does, with the memory as it is. -/
def FrameCall.write {φ : Type*} (dev : Device φ) (sizes : FrameSizes) (ram : Buffer)
    (opened : Option (List Byte)) (device : φ) (call : FrameCall) : ℤ × Option (OpenFile φ) :=
  writeOutput dev sizes.width.toNat sizes.height.toNat sizes.stride.toNat
    (ram.advance call.y.toNat) (ram.advance call.uv.toNat) opened device

/-- A picture of the frame's size fits in the padded frame at this place. -/
structure FrameSizes.Inside (sizes : FrameSizes) (r : Point) : Prop where
  left : 0 ≤ r.x
  right : r.x + sizes.width ≤ sizes.paddedWidth
  top : 0 ≤ r.y
  bottom : r.y + sizes.height ≤ sizes.paddedHeight

/-- The samples of some rows and columns of a plane. -/
def samples {β : Type*} (stride row rows column columns : ℕ) (plane : ℕ → β) : List β :=
  (List.range rows).flatMap fun i =>
    (List.range columns).map fun j => plane ((row + i) * stride + (column + j))

/-- The picture at a place of the buffer that begins at an address: the rows of luma
samples, and half as many rows of chroma samples from half as far down. -/
def picture (sizes : FrameSizes) (ram : Buffer) (buf : ℕ) (r : Point) : List Byte :=
  let luma := ram.advance buf
  let chroma := ram.advance (buf + (sizes.stride * sizes.paddedHeight).toNat)
  samples sizes.stride.toNat r.y.toNat sizes.height.toNat r.x.toNat sizes.width.toNat luma ++
    samples sizes.stride.toNat (r.y.toNat / 2) (sizes.height.toNat / 2) r.x.toNat
      sizes.width.toNat chroma

section Places

/-- The places of some rows from a place on. -/
def rowPlaces (width stride rows start : ℕ) : List ℕ :=
  (planeRows width stride rows fun k => start + k).flatten

variable {width stride rows start : ℕ}

theorem planeRows_advance (ram : Buffer) :
    (planeRows width stride rows (ram.advance start)).flatten =
      (rowPlaces width stride rows start).map ram := by
  rw [rowPlaces, List.map_flatten, planeRows_map]
  rfl

theorem samples_advance (ram : Buffer) (row column : ℕ) :
    samples stride row rows column width (ram.advance start) =
      (rowPlaces width stride rows (start + (row * stride + column))).map ram := by
  have hplace : ∀ i j, start + ((row + i) * stride + (column + j)) =
      start + (row * stride + column) + (i * stride + j) := by
    intro i j
    ring
  simp [samples, rowPlaces, planeRows, Buffer.advance, List.flatMap, List.map_flatten,
    Function.comp_def, hplace]

theorem length_rowPlaces : (rowPlaces width stride rows start).length = rows * width := by
  rw [rowPlaces, List.length_flatten, List.map_congr_left (length_of_mem_planeRows width stride rows _),
    List.map_const', List.sum_replicate, length_planeRows, smul_eq_mul]

/-- Rows tell where they start. -/
theorem rowPlaces_inj {start' : ℕ} (hwidth : 0 < width) (hrows : 0 < rows) :
    rowPlaces width stride rows start = rowPlaces width stride rows start' ↔ start = start' := by
  constructor
  · intro h
    obtain ⟨rows, rfl⟩ := Nat.exists_eq_succ_of_ne_zero hrows.ne'
    obtain ⟨width, rfl⟩ := Nat.exists_eq_succ_of_ne_zero hwidth.ne'
    have hhead := congrArg List.head? h
    simpa [rowPlaces, planeRows_succ, List.range_succ_eq_map] using hhead
  · rintro rfl
    rfl

/-- Two frames are the same for any memory exactly when both planes start at the same
places. -/
theorem forall_ram_iff {y y' uv uv' : ℕ} {height : ℕ} (hwidth : 0 < width) (hheight : 2 ≤ height) :
    (∀ ram : Buffer, (rowPlaces width stride height y).map ram ++
        (rowPlaces width stride (height / 2) uv).map ram =
      (rowPlaces width stride height y').map ram ++
        (rowPlaces width stride (height / 2) uv').map ram) ↔ y = y' ∧ uv = uv' := by
  have hluma : rowPlaces width stride height y = rowPlaces width stride height y' ↔ y = y' :=
    rowPlaces_inj hwidth (by omega)
  have hchroma : rowPlaces width stride (height / 2) uv = rowPlaces width stride (height / 2) uv' ↔
      uv = uv' := rowPlaces_inj hwidth (by omega)
  rw [← hluma, ← hchroma]
  constructor
  · intro h
    have hplaces : rowPlaces width stride height y ++ rowPlaces width stride (height / 2) uv =
        rowPlaces width stride height y' ++ rowPlaces width stride (height / 2) uv' := by
      refine eq_of_forall_map_eq fun ram => ?_
      rw [List.map_append, List.map_append]
      exact h ram
    exact List.append_inj hplaces (length_rowPlaces.trans length_rowPlaces.symm)
  · rintro ⟨hy, huv⟩ ram
    rw [hy, huv]

end Places

section Offsets

variable {oned : Bool} {w h : ℤ} {sizes : FrameSizes} {r r' : Point}

/-- The stride is even. -/
theorem FrameSizes.Computed.stride_eq (hsizes : sizes.Computed oned w h) (hw : 0 < w) (hh : 0 < h) :
    ∃ half : ℕ, 0 < half ∧ sizes.stride = (2 * half : ℕ) := by
  obtain ⟨-, -, hpos, -⟩ := hsizes.pos hw hh
  have hpaddedWidth := hsizes.paddedWidth
  have hstride := hsizes.stride
  refine ⟨(sizes.stride / 2).toNat, ?_⟩
  cases oned with
  | false =>
      simp only [Bool.false_eq_true, if_false] at hstride
      omega
  | true =>
      simp only [if_true] at hstride
      omega

/-- A place is known by its column and its row. -/
theorem FrameSizes.Inside.eq_iff (hr : sizes.Inside r) (hr' : sizes.Inside r') :
    r'.x.toNat = r.x.toNat ∧ r'.y.toNat = r.y.toNat ↔ r' = r := by
  have hleft := hr.left
  have hleft' := hr'.left
  have htop := hr.top
  have htop' := hr'.top
  obtain ⟨x, y⟩ := r
  obtain ⟨x', y'⟩ := r'
  dsimp only at hleft hleft' htop htop' ⊢
  rw [Point.mk.injEq]
  omega

/-- The padding left of a picture is less than a row. -/
theorem FrameSizes.Inside.lt_stride (hr : sizes.Inside r) (hsizes : sizes.Computed oned w h)
    (hw : 0 < w) (hh : 0 < h) : r.x < sizes.stride := by
  obtain ⟨hwidth, -, -, -⟩ := hsizes.pos hw hh
  have hpaddedWidth := hsizes.paddedWidth
  have hright := hr.right
  rw [hsizes.stride]
  split <;> omega

/-- The place of a luma and of a chroma sample tell the row and the column, and that the
row is even. -/
theorem places_iff {half x y x' y' : ℕ} (hhalf : 0 < half) (hx : x < 2 * half)
    (hx' : x' < 2 * half) :
    (y * (2 * half) + x = y' * (2 * half) + x' ∧
        y * (2 * half) / 2 + x = y' / 2 * (2 * half) + x') ↔
      (x' = x ∧ y' = y) ∧ Even y' := by
  have hhalved : ∀ k : ℕ, k * (2 * half) / 2 = k * half := by
    intro k
    rw [Nat.mul_left_comm, Nat.mul_div_cancel_left _ (by norm_num)]
  rw [hhalved]
  constructor
  · rintro ⟨hluma, hchroma⟩
    have hcolumn : x = x' := by
      have hmod := congrArg (· % (2 * half)) hluma
      simpa [Nat.mul_add_mod', Nat.mod_eq_of_lt hx, Nat.mod_eq_of_lt hx'] using hmod
    subst hcolumn
    have hrow : y = y' := Nat.eq_of_mul_eq_mul_right (by omega) (Nat.add_right_cancel hluma)
    subst hrow
    refine ⟨⟨rfl, rfl⟩, ?_⟩
    have heven : y * half = (y / 2 * 2) * half := by
      rw [Nat.mul_assoc]
      exact Nat.add_right_cancel hchroma
    rw [Nat.even_iff]
    have hy := Nat.eq_of_mul_eq_mul_right hhalf heven
    omega
  · rintro ⟨⟨rfl, rfl⟩, heven⟩
    obtain ⟨k, rfl⟩ := heven
    refine ⟨rfl, ?_⟩
    rw [show (k + k) / 2 = k by omega]
    ring

end Offsets

section Calls

variable {sizes : FrameSizes} {mem : Word → OutputBuffer} {args : OutArgs}

theorem getElem?_displayLoop (ids : List Word) (outCnt : ℤ) (i : ℕ) :
    (displayLoop sizes mem args ids outCnt)[i]? =
      ids[i]?.map fun id => frameCall sizes mem args id (outCnt + i) := by
  induction ids generalizing outCnt i with
  | nil => simp [displayLoop]
  | cons id ids ih =>
      cases i with
      | zero => simp [displayLoop]
      | succ i =>
          rw [displayLoop, List.getElem?_cons_succ, ih, List.getElem?_cons_succ, Nat.cast_succ,
            add_assoc outCnt 1, add_comm 1 (i : ℤ)]

/-- The call for a frame that is displayed. -/
theorem displayFrames_of_scan (sizes : FrameSizes) (mem : Word → OutputBuffer) {shown : List Word}
    (hshown : scanIds args.outputID.ids = some shown) (outCnt : ℤ) {i : ℕ} (hi : i < shown.length) :
    displayFrames sizes mem args outCnt = some (displayLoop sizes mem args shown outCnt) ∧
      (displayLoop sizes mem args shown outCnt)[i]? =
        some (frameCall sizes mem args shown[i] (outCnt + i)) := by
  constructor
  · rw [displayFrames, hshown, Option.map_some]
  · rw [getElem?_displayLoop, List.getElem?_eq_getElem hi, Option.map_some]

/-- Where the planes of a call start. -/
theorem frameCall_places (hstride : 0 ≤ sizes.stride) (hheight : 0 ≤ sizes.paddedHeight)
    (hleft : 0 ≤ (args.topLeft 0).x) (htop : 0 ≤ (args.topLeft 0).y) (mem : Word → OutputBuffer)
    (id : Word) (outCnt : ℤ) :
    let r := args.topLeft 0
    let call := frameCall sizes mem args id outCnt
    let buf := (mem id).buf.toNat
    call.y.toNat = buf + (r.y.toNat * sizes.stride.toNat + r.x.toNat) ∧
      call.uv.toNat = buf + (sizes.stride * sizes.paddedHeight).toNat +
        (r.y.toNat * sizes.stride.toNat / 2 + r.x.toNat) := by
  have hplane : 0 ≤ sizes.stride * sizes.paddedHeight := mul_nonneg hstride hheight
  obtain ⟨x, hx⟩ := Int.eq_ofNat_of_zero_le hleft
  obtain ⟨y, hy⟩ := Int.eq_ofNat_of_zero_le htop
  obtain ⟨stride, hwhole⟩ := Int.eq_ofNat_of_zero_le hstride
  have hrow : (args.topLeft 0).y * sizes.stride = (y * stride : ℕ) := by
    rw [hy, hwhole, Nat.cast_mul]
  have hhalved : Int.tdiv ((y * stride : ℕ) : ℤ) 2 = ((y * stride / 2 : ℕ) : ℤ) :=
    (Int.ofNat_tdiv _ 2).symm
  have hnat : sizes.stride.toNat = stride := by omega
  dsimp only [frameCall]
  rw [hrow, hhalved, hnat, hx, hy, Int.toNat_natCast, Int.toNat_natCast]
  generalize y * stride = start, sizes.stride * sizes.paddedHeight = plane at *
  omega

variable {φ : Type*} {dev : Device φ}

/-- Where every write accepts something, a call writes the rows from the two places on. -/
theorem write_frameCall (hprogress : ∀ d len, 0 < len → 1 ≤ (dev d len).1) (ram : Buffer)
    (old : List Byte) (device : φ) (call : FrameCall) (data : List Byte) :
    (∃ sz file, call.write dev sizes ram (some old) device = (sz, some file) ∧ file.Written old data) ↔
      (rowPlaces sizes.width.toNat sizes.stride.toNat sizes.height.toNat call.y.toNat).map ram ++
          (rowPlaces sizes.width.toNat sizes.stride.toNat (sizes.height.toNat / 2)
            call.uv.toNat).map ram = data := by
  obtain ⟨file, hrun, hwritten, -⟩ := writeOutput_opened dev sizes.width.toNat sizes.height.toNat
    sizes.stride.toNat (ram.advance call.y.toNat) (ram.advance call.uv.toNat) old device
  rw [rowHeads_of_progress dev hprogress, unstrided, planeRows_advance, planeRows_advance] at hwritten
  constructor
  · rintro ⟨sz, file', hrun', hwritten'⟩
    rw [FrameCall.write, hrun, Prod.mk.injEq, Option.some.injEq] at hrun'
    obtain ⟨-, rfl⟩ := hrun'
    exact hwritten.unique hwritten'
  · rintro rfl
    exact ⟨_, file, hrun, hwritten⟩

end Calls

section Pictures

variable {φ : Type*} {dev : Device φ} {oned : Bool} {w h : ℤ} {sizes : FrameSizes} {args : OutArgs}
  {shown : List Word}

/-- Which places a displayed frame is written from, and which the picture is at. -/
theorem displayed_picture_places (hprogress : ∀ d len, 0 < len → 1 ≤ (dev d len).1) (hw : 0 < w)
    (hh : 0 < h) (hsizes : frameSizes oned w h = some sizes) (mem : Word → OutputBuffer)
    (hshown : scanIds args.outputID.ids = some shown) (outCnt : ℤ) {i : ℕ} (hi : i < shown.length)
    (hfirst : sizes.Inside (args.topLeft 0)) (old : List Byte) (device : φ) :
    (∃ calls call, displayFrames sizes mem args outCnt = some calls ∧ calls[i]? = some call ∧
      ∀ ram : Buffer, ∃ sz file, call.write dev sizes ram (some old) device = (sz, some file) ∧
        file.Written old (picture sizes ram (mem shown[i]).buf.toNat (args.topLeft i))) ↔
      let r := args.topLeft 0
      let r' := args.topLeft i
      let stride := sizes.stride.toNat
      r.y.toNat * stride + r.x.toNat = r'.y.toNat * stride + r'.x.toNat ∧
        r.y.toNat * stride / 2 + r.x.toNat = r'.y.toNat / 2 * stride + r'.x.toNat := by
  have hcomputed := frameSizes_computed hsizes
  obtain ⟨hwidth, hheight, -, hpaddedHeight⟩ := hcomputed.pos hw hh
  obtain ⟨half, -, hhalf⟩ := hcomputed.stride_eq hw hh
  have hstride : 0 ≤ sizes.stride := by omega
  have hrows : 0 ≤ sizes.paddedHeight := by omega
  obtain ⟨hluma, hchroma⟩ := frameCall_places hstride hrows hfirst.left hfirst.top mem shown[i]
    (outCnt + i)
  obtain ⟨hcalls, hcall⟩ := displayFrames_of_scan sizes mem hshown outCnt hi
  simp only [hcalls, Option.some.injEq, exists_and_left, exists_eq_left', hcall,
    write_frameCall hprogress, hluma, hchroma, picture, samples_advance]
  rw [forall_ram_iff (by omega) (by omega), Nat.add_left_cancel_iff, Nat.add_left_cancel_iff]

/-- A displayed frame is the picture at its own place exactly when its place is that of
the first frame and in an even row. -/
theorem displayed_picture_iff (hprogress : ∀ d len, 0 < len → 1 ≤ (dev d len).1) (hw : 0 < w)
    (hh : 0 < h) (hsizes : frameSizes oned w h = some sizes) (mem : Word → OutputBuffer)
    (hshown : scanIds args.outputID.ids = some shown) (outCnt : ℤ) {i : ℕ} (hi : i < shown.length)
    (hfirst : sizes.Inside (args.topLeft 0)) (hown : sizes.Inside (args.topLeft i))
    (old : List Byte) (device : φ) :
    (∃ calls call, displayFrames sizes mem args outCnt = some calls ∧ calls[i]? = some call ∧
      ∀ ram : Buffer, ∃ sz file, call.write dev sizes ram (some old) device = (sz, some file) ∧
        file.Written old (picture sizes ram (mem shown[i]).buf.toNat (args.topLeft i))) ↔
      args.topLeft i = args.topLeft 0 ∧ Even (args.topLeft i).y := by
  have hcomputed := frameSizes_computed hsizes
  obtain ⟨half, hhalf, hstride⟩ := hcomputed.stride_eq hw hh
  have hwhole : sizes.stride.toNat = 2 * half := by omega
  have hcolumn := hfirst.lt_stride hcomputed hw hh
  have hcolumn' := hown.lt_stride hcomputed hw hh
  have hleft := hfirst.left
  have hleft' := hown.left
  have heven : Even (args.topLeft i).y.toNat ↔ Even (args.topLeft i).y := by
    rw [← Int.even_coe_nat, Int.toNat_of_nonneg hown.top]
  rw [displayed_picture_places hprogress hw hh hsizes mem hshown outCnt hi hfirst old device, hwhole,
    places_iff hhalf (by omega) (by omega), hfirst.eq_iff hown, heven]

end Pictures

/-- The sizes for the smallest frame. -/
def smallest : FrameSizes := ⟨16, 16, 128, 112, 19, 128⟩

theorem frameSizes_smallest : frameSizes true 16 16 = some smallest := by decide +kernel

/-- Two frames, with the second at some place. -/
def twoFrames (second : Point) : OutArgs where
  outputID := .ofList [0x1000, 0x2000] (by decide)
  freeBufID := .ofList [] (by decide)
  topLeft := fun i => if i = 0 then ⟨32, 24⟩ else second

/-- Two buffers with their memory at other addresses. -/
def twoBuffers (p : Word) : OutputBuffer := ⟨p + 0x100000, p, p, 0⟩

theorem scanIds_twoFrames (second : Point) :
    scanIds (twoFrames second).outputID.ids = some [0x1000, 0x2000] := rfl

theorem displayed_picture_iff_same_place : ∃ calls call,
    displayFrames smallest twoBuffers (twoFrames ⟨32, 24⟩) 0 = some calls ∧ calls[1]? = some call ∧
      ∀ ram : Buffer, ∃ sz file, call.write threeAtATime smallest ram (some []) () = (sz, some file) ∧
        file.Written [] (picture smallest ram (twoBuffers 0x2000).buf.toNat ⟨32, 24⟩) :=
  (displayed_picture_iff (fun _ _ _ => (by decide : (1 : ℤ) ≤ 3)) (by norm_num) (by norm_num)
    frameSizes_smallest twoBuffers (scanIds_twoFrames ⟨32, 24⟩) 0 (i := 1) (by decide)
    ⟨by decide, by decide, by decide, by decide⟩ ⟨by decide, by decide, by decide, by decide⟩ [] ()).mpr
    (by decide)

/-- The second of two frames, which is further to the left, is written from the place of
the first. -/
theorem displayed_picture_of_first : ¬∃ calls call,
    displayFrames smallest twoBuffers (twoFrames ⟨30, 24⟩) 0 = some calls ∧ calls[1]? = some call ∧
      ∀ ram : Buffer, ∃ sz file, call.write threeAtATime smallest ram (some []) () = (sz, some file) ∧
        file.Written [] (picture smallest ram (twoBuffers 0x2000).buf.toNat ⟨30, 24⟩) := by
  have hprogress : ∀ d len, 0 < len → 1 ≤ (threeAtATime d len).1 := fun _ _ _ => by
    simp [threeAtATime]
  have hplaces := displayed_picture_places hprogress (by norm_num) (by norm_num) frameSizes_smallest
    twoBuffers (scanIds_twoFrames ⟨30, 24⟩) 0 (i := 1) (by decide)
    ⟨by decide, by decide, by decide, by decide⟩ [] ()
  exact fun h => absurd (hplaces.mp h).1 (by decide)

end Libdce.Sample
