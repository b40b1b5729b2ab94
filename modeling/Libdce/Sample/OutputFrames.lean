import Libdce.Foundation.PartialTransfers

/-!
# Writing a frame

`write_output` writes a frame without its padding: the rows of the luma plane, then the
rows of the chroma plane, each with as many writes as it takes. A row whose write fails
is given up, but the rows after it are written all the same, and the file is opened
without being cut to length.

## Implementation notes

A plane is given by the bytes from the pointer on. What the device does with a request
cannot depend on the bytes, so the results of the writes are those of `pieceResults`
whatever the frame holds. The return value is an integer here; a frame has less than
2^31 bytes.
-/

namespace Libdce.Sample

open Foundation.Bytes Foundation.PartialTransfers

variable {φ : Type*} (dev : Device φ)

/-- The file and the count that the loops of `write_output` work on. -/
structure Writer (φ : Type*) where
  file : OpenFile φ
  sz : ℤ

/-- The inner loop: write a row of `len` bytes at `p`. -/
def writeRow (p : Buffer) (len : ℕ) (w : Writer φ) : Writer φ :=
  if len = 0 then w
  else
    let n := (w.file.write dev p len).1
    let file := (w.file.write dev p len).2
    if 0 < n then writeRow (p.advance n.toNat) (len - n.toNat) ⟨file, w.sz + n⟩
    else ⟨file, w.sz⟩
termination_by len
decreasing_by omega

/-- The outer loop: write some rows of `width` bytes, `stride` bytes apart. -/
def writeRows (width stride : ℕ) : ℕ → Buffer → Writer φ → Writer φ
  | 0, _, w => w
  | rows + 1, y, w => writeRows width stride rows (y.advance stride) (writeRow dev y width w)

/-- `write_output`: the return value, and the file if it could be opened. It is opened
with the content it has, none if it was just created. -/
def writeOutput (width height stride : ℕ) (y uv : Buffer) (opened : Option (List Byte)) (device : φ) :
    ℤ × Option (OpenFile φ) :=
  match opened with
  | none => (0, none)
  | some old =>
      let w : Writer φ := ⟨.opened old device, 0⟩
      let w := writeRows dev width stride height y w
      let w := writeRows dev width stride (height / 2) uv w
      (w.sz, some w.file)

/-- The rows of a plane without the padding. -/
def planeRows {β : Type*} (width stride rows : ℕ) (plane : ℕ → β) : List (List β) :=
  (List.range rows).map fun i => (List.range width).map fun j => plane (i * stride + j)

/-- The frame without its padding. -/
def unstrided (width height stride : ℕ) (y uv : Buffer) : List Byte :=
  (planeRows width stride height y).flatten ++ (planeRows width stride (height / 2) uv).flatten

section Planes

variable {β : Type*} (width stride rows : ℕ) (plane : ℕ → β)

theorem length_planeRows : (planeRows width stride rows plane).length = rows := by
  simp [planeRows]

theorem length_of_mem_planeRows : ∀ row ∈ planeRows width stride rows plane, row.length = width := by
  simp [planeRows]

theorem planeRows_succ :
    planeRows width stride (rows + 1) plane =
      ((List.range width).map plane) ::
        planeRows width stride rows fun k => plane (stride + k) := by
  simp [planeRows, List.range_succ_eq_map, Nat.succ_mul, Nat.add_comm, Nat.add_left_comm]

theorem planeRows_map {γ : Type*} (content : β → γ) :
    (planeRows width stride rows plane).map (List.map content) =
      planeRows width stride rows fun k => content (plane k) := by
  simp [planeRows, Function.comp_def]

end Planes

section Frame

variable {β : Type*} (width height stride : ℕ)

/-- The rows of both planes of a frame. -/
def frameRows (y uv : ℕ → β) : List (List β) :=
  planeRows width stride height y ++ planeRows width stride (height / 2) uv

theorem flatten_frameRows (y uv : Buffer) :
    (frameRows width height stride y uv).flatten = unstrided width height stride y uv :=
  List.flatten_append

theorem length_frameRows (y uv : ℕ → β) :
    (frameRows width height stride y uv).length = height + height / 2 := by
  rw [frameRows, List.length_append, length_planeRows, length_planeRows]

theorem length_of_mem_frameRows (y uv : ℕ → β) :
    ∀ row ∈ frameRows width height stride y uv, row.length = width :=
  List.forall_mem_append.mpr
    ⟨length_of_mem_planeRows width stride height y, length_of_mem_planeRows width stride _ uv⟩

theorem length_unstrided (y uv : Buffer) :
    (unstrided width height stride y uv).length = width * height + width * (height / 2) := by
  have hrows := length_of_mem_frameRows width height stride y uv
  rw [← flatten_frameRows, List.length_flatten, List.map_congr_left hrows, List.map_const',
    List.sum_replicate, length_frameRows, smul_eq_mul, Nat.add_mul, Nat.mul_comm height,
    Nat.mul_comm (height / 2)]

/-- The results of the writes of a frame, row by row. -/
def frameResults (device : φ) : List (List ℤ) :=
  (piecesResults dev width height device).1 ++
    (piecesResults dev width (height / 2) (piecesResults dev width height device).2).1

theorem length_frameResults (device : φ) :
    (frameResults dev width height device).length = height + height / 2 := by
  rw [frameResults, List.length_append, length_piecesResults, length_piecesResults]

theorem forall_frameResults {P : List ℤ → Prop} (hP : ∀ d, P (pieceResults dev width d).1)
    (device : φ) : ∀ rs ∈ frameResults dev width height device, P rs :=
  List.forall_mem_append.mpr
    ⟨forall_piecesResults dev hP height _, forall_piecesResults dev hP (height / 2) _⟩

end Frame

/-- Since the file was opened, some bytes were written with some results. -/
structure Writer.Has (old data : List Byte) (results : List ℤ) (device : φ) (w : Writer φ) : Prop where
  written : w.file.Written old data
  device : w.file.device = device
  results : w.file.results = results
  sz : w.sz = data.length

namespace Writer.Has

variable {old data : List Byte} {results : List ℤ} {device : φ} {w : Writer φ}

/-- One write adds what it transfers, if that is anything. -/
theorem write (h : Has old data results device w) (p : Buffer) {len : ℕ} {n : ℤ}
    (hn : min (dev device len).1 (len : ℤ) = n) :
    (w.file.write dev p len).1 = n ∧
      Has old (data ++ p.field 0 n.toNat) (results ++ [n]) (dev device len).2
        ⟨(w.file.write dev p len).2, w.sz + n.toNat⟩ := by
  have hresult : (w.file.write dev p len).1 = n := by
    rw [← hn, ← h.device]
    rfl
  have hwritten := h.written.write dev p len
  rw [hresult] at hwritten
  refine ⟨hresult, hwritten, ?_, ?_, ?_⟩
  · rw [← h.device]
    rfl
  · rw [← hresult, ← h.results]
    rfl
  · dsimp only
    rw [List.length_append, Buffer.length_field, h.sz, Nat.cast_add]

/-- A row is written as far as its writes go. -/
theorem writeRow (h : Has old data results device w) (p : Buffer) (len : ℕ) :
    Has old (data ++ p.field 0 (transferred (pieceResults dev len device).1))
      (results ++ (pieceResults dev len device).1) (pieceResults dev len device).2
      (writeRow dev p len w) := by
  induction len using Nat.strong_induction_on generalizing p data results device w with
  | _ len ih =>
      rw [Sample.writeRow]
      by_cases hlen : len = 0
      · rw [if_pos hlen, pieceResults, if_pos hlen]
        simpa [Buffer.field] using h
      · rw [if_neg hlen, pieceResults_of_ne_zero dev hlen]
        generalize hn : min (dev device len).1 (len : ℤ) = n
        obtain ⟨hresult, hnext⟩ := h.write dev p hn
        simp only [hresult]
        by_cases hpos : 0 < n
        · rw [if_pos hpos, if_pos hpos]
          rw [Int.toNat_of_nonneg hpos.le] at hnext
          have hrest := ih (len - n.toNat) (by omega) hnext (p.advance n.toNat)
          rw [Buffer.field_advance, List.append_assoc, List.append_assoc, Nat.add_comm n.toNat 0,
            ← Buffer.field_add, List.singleton_append] at hrest
          exact hrest
        · have hnone : n.toNat = 0 := Int.toNat_of_nonpos (not_lt.mp hpos)
          rw [hnone, Nat.cast_zero, add_zero] at hnext
          rw [if_neg hpos, if_neg hpos, transferred_cons, hnone]
          exact hnext

/-- Rows are written one by one, each as far as its writes go. -/
theorem writeRows (h : Has old data results device w) (width stride rows : ℕ) (y : Buffer) :
    Has old
      (data ++ rowHeads (planeRows width stride rows y)
        ((piecesResults dev width rows device).1.map transferred))
      (results ++ (piecesResults dev width rows device).1.flatten)
      (piecesResults dev width rows device).2 (writeRows dev width stride rows y w) := by
  induction rows generalizing y data results device w with
  | zero => simpa [rowHeads, planeRows, piecesResults, Sample.writeRows] using h
  | succ rows ih =>
      have hrow := h.writeRow dev y width
      have hrest := ih hrow (y.advance stride)
      have hle := (pieceResults_spec dev width device).le
      have htake : ((List.range width).map y).take (transferred (pieceResults dev width device).1) =
          y.field 0 (transferred (pieceResults dev width device).1) := by
        rw [← List.map_take, List.take_range, min_eq_left hle]
        simp [Buffer.field]
      rw [planeRows_succ, Sample.writeRows]
      simp only [piecesResults, List.map_cons, rowHeads_cons, htake, List.flatten_cons]
      rw [← List.append_assoc, ← List.append_assoc]
      exact hrest

end Writer.Has

/-- What is in the file afterwards, and what `write_output` returns. -/
theorem writeOutput_opened (width height stride : ℕ) (y uv : Buffer) (old : List Byte) (device : φ) :
    ∃ file, writeOutput dev width height stride y uv (some old) device =
        ((transferred (frameResults dev width height device).flatten : ℤ), some file) ∧
      file.Written old (rowHeads (frameRows width height stride y uv)
        ((frameResults dev width height device).map transferred)) ∧
      file.results = (frameResults dev width height device).flatten := by
  have hopened : Writer.Has old [] [] device ⟨.opened old device, 0⟩ :=
    ⟨OpenFile.written_opened old device, rfl, rfl, rfl⟩
  have hluma := hopened.writeRows dev width stride height y
  have hchroma := hluma.writeRows dev width stride (height / 2) uv
  have hlengths : (planeRows width stride height y).length =
      ((piecesResults dev width height device).1.map transferred).length := by
    rw [length_planeRows, List.length_map, length_piecesResults]
  rw [List.nil_append, List.nil_append, rowHeads, rowHeads, ← List.flatten_append,
    ← List.zipWith_append hlengths, ← List.map_append, ← List.flatten_append] at hchroma
  refine ⟨_, Prod.ext ?_ rfl, hchroma.written, hchroma.results⟩
  have hheads : (rowHeads (frameRows width height stride y uv)
      ((frameResults dev width height device).map transferred)).length =
        ((frameResults dev width height device).map transferred).sum := length_rowHeads
    (by rw [length_frameRows, List.length_map, length_frameResults])
    (length_of_mem_frameRows width height stride y uv)
    (by
      intro k hk
      obtain ⟨rs, hrs, rfl⟩ := List.mem_map.mp hk
      exact (forall_frameResults dev width height (pieceResults_spec dev width) device rs hrs).le)
  rw [transferred_flatten, ← hheads]
  exact hchroma.sz

/-- Where every write accepts something, every row goes through. -/
theorem transfers_of_progress (hprogress : ∀ d len, 0 < len → 1 ≤ (dev d len).1)
    (width height : ℕ) (device : φ) : (frameResults dev width height device).map transferred =
      List.replicate (height + height / 2) width := by
  have hfull : ∀ rs ∈ frameResults dev width height device, transferred rs = width :=
    forall_frameResults dev width height (transferred_pieceResults dev hprogress width) device
  rw [List.map_congr_left hfull, List.map_const', length_frameResults]

/-- What goes through then is the frame without its padding. -/
theorem rowHeads_of_progress (hprogress : ∀ d len, 0 < len → 1 ≤ (dev d len).1)
    (width height stride : ℕ) (y uv : Buffer) (device : φ) :
    rowHeads (frameRows width height stride y uv)
      ((frameResults dev width height device).map transferred) = unstrided width height stride y uv := by
  have hheads : rowHeads (frameRows width height stride y uv)
      (List.replicate (height + height / 2) width) =
        (frameRows width height stride y uv).flatten.take
          (List.replicate (height + height / 2) width).sum := rowHeads_of_pairwise
    (by rw [length_frameRows, List.length_replicate])
    (length_of_mem_frameRows width height stride y uv)
    (fun k hk => (List.eq_of_mem_replicate hk).le)
    (List.pairwise_of_forall_mem_list fun k hk _ _ hlt =>
      absurd (List.eq_of_mem_replicate hk) hlt.ne)
  have hlength := length_unstrided width height stride y uv
  rw [transfers_of_progress dev hprogress, hheads, flatten_frameRows, List.sum_replicate, smul_eq_mul]
  apply List.take_of_length_le
  rw [hlength, Nat.add_mul, Nat.mul_comm width, Nat.mul_comm width]

/-- A device that takes three bytes at a time. -/
def threeAtATime : Device Unit := fun _ _ => (3, ())

section Prefix

variable (width height stride : ℕ) (old : List Byte) (device : φ)

end Prefix

end Libdce.Sample
