import Libdce.Foundation.Allocation
import Libdce.Foundation.PartialTransfers

/-!
# Reading a frame

`read_input` reads a file to its end. Every read asks for the size of the whole buffer,
wherever it stores, so it is the length of the file that keeps it inside the buffer.

## Implementation notes

The extents that the reads store into are recorded in order.
-/

namespace Libdce.Sample

open Foundation.Bytes Foundation.Allocation Foundation.PartialTransfers

variable {φ : Type*} (dev : Device φ)

/-- The variables of the loop of `read_input`, memory, and what was stored where. -/
structure Reader (φ : Type*) where
  file : OpenFile φ
  mem : Buffer
  input : ℕ
  sz : ℤ
  stored : List Extent

/-- The loop of `read_input`, where each read asks for `request` bytes. -/
def readLoop (request : ℕ) (r : Reader φ) : Reader φ :=
  let n := (r.file.read dev request).1
  let data := (r.file.read dev request).2.1
  let file := (r.file.read dev request).2.2
  if 0 < n then
    readLoop request {
      file := file
      mem := store r.mem r.input data
      input := r.input + n.toNat
      sz := r.sz + n
      stored := r.stored ++ [⟨r.input, n.toNat⟩] }
  else { r with file := file }
termination_by r.file.bytes.length - r.file.pos
decreasing_by
  obtain ⟨hle, -, hbytes, hpos, -⟩ := OpenFile.read_result dev r.file request
  simp only [hbytes, hpos]
  omega

/-- `read_input` of a file that could be opened, or not, into the memory at `input`. -/
def readInput (width height : ℕ) (opened : Option (List Byte)) (device : φ) (input : ℕ)
    (mem : Buffer) : Reader φ :=
  match opened with
  | none => ⟨.opened [] device, mem, input, 0, []⟩
  | some bytes => readLoop dev (width * height) ⟨.opened bytes device, mem, input, 0, []⟩

/-- Since the file was opened, its first bytes were stored from some address on. -/
structure Reader.Has (bytes : List Byte) (start : ℕ) (r : Reader φ) : Prop where
  content : r.file.bytes = bytes
  pos : r.file.pos ≤ bytes.length
  input : r.input = start + r.file.pos
  sz : r.sz = r.file.pos
  transferred : transferred r.file.results = r.file.pos
  stored : ∀ e ∈ r.stored, start ≤ e.start ∧ e.start + e.len ≤ start + r.file.pos
  reached : 0 < r.file.pos → ∃ e ∈ r.stored, e.start + e.len = start + r.file.pos
  mem : r.mem.field start r.file.pos = bytes.take r.file.pos

namespace Reader.Has

variable {dev} {bytes : List Byte} {start : ℕ} {r : Reader φ}

/-- One read that stores something. -/
theorem store (h : Has bytes start r) (request : ℕ) (hn : 0 < (r.file.read dev request).1) :
    Has bytes start {
      file := (r.file.read dev request).2.2
      mem := Foundation.PartialTransfers.store r.mem r.input (r.file.read dev request).2.1
      input := r.input + (r.file.read dev request).1.toNat
      sz := r.sz + (r.file.read dev request).1
      stored := r.stored ++ [⟨r.input, (r.file.read dev request).1.toNat⟩] } := by
  obtain ⟨hle, hdata, hbytes, hpos, hresults⟩ := OpenFile.read_result dev r.file request
  have hold := h.pos
  generalize (r.file.read dev request).2.1 = data at *
  generalize (r.file.read dev request).2.2 = file at *
  generalize (r.file.read dev request).1 = n at *
  rw [h.content] at hle hdata hbytes
  have hlength : data.length = n.toNat := by
    rw [hdata, List.length_take_of_le]
    rw [List.length_drop]
    omega
  refine ⟨hbytes, ?_, ?_, ?_, ?_, ?_, ?_, ?_⟩ <;> simp only [hpos]
  · omega
  · rw [h.input, Nat.add_assoc]
  · rw [h.sz]
    omega
  · rw [hresults, transferred_append, h.transferred]
    simp
  · refine List.forall_mem_append.mpr ⟨?_, List.forall_mem_singleton.mpr ?_⟩
    · intro e he
      have hstored := h.stored e he
      omega
    · have hinput := h.input
      dsimp only
      omega
  · intro _
    refine ⟨_, List.mem_append_right _ (List.mem_singleton_self _), ?_⟩
    rw [h.input, Nat.add_assoc]
  · have hfirst : (Foundation.PartialTransfers.store r.mem r.input data).field start r.file.pos =
        r.mem.field start r.file.pos :=
      Buffer.field_congr fun k _ hhi => store_apply_of_apart _ (Or.inl (h.input ▸ hhi))
    rw [Buffer.field_add, hfirst, h.mem, ← h.input, ← hlength, field_store, hdata,
      List.length_take_of_le (by rw [List.length_drop]; omega), List.take_add]

/-- The whole loop, up to the first read that stores nothing. -/
theorem readLoop (h : Has bytes start r) (request : ℕ) :
    Has bytes start (readLoop dev request r) := by
  induction hleft : r.file.bytes.length - r.file.pos using Nat.strong_induction_on
    generalizing r with
  | _ left ih =>
      subst hleft
      rw [Sample.readLoop]
      by_cases hn : 0 < (r.file.read dev request).1
      · obtain ⟨hle, -, hbytes, hpos, -⟩ := OpenFile.read_result dev r.file request
        rw [if_pos hn]
        refine ih _ ?_ (h.store request hn) rfl
        simp only [hbytes, hpos]
        omega
      · obtain ⟨-, -, hbytes, hpos, hresults⟩ := OpenFile.read_result dev r.file request
        have hnone : (r.file.read dev request).1.toNat = 0 := by omega
        rw [hnone, Nat.add_zero] at hpos
        rw [if_neg hn]
        refine ⟨hbytes.trans h.content, ?_, ?_, ?_, ?_, ?_, ?_, ?_⟩ <;> simp only [hpos]
        · exact h.pos
        · exact h.input
        · exact h.sz
        · rw [hresults, transferred_append, h.transferred]
          simpa using not_lt.mp hn
        · exact h.stored
        · exact h.reached
        · exact h.mem

end Reader.Has

/-- A file that could not be opened reads like an empty one. -/
theorem readInput_has (width height : ℕ) (opened : Option (List Byte)) (device : φ) (input : ℕ)
    (mem : Buffer) :
    Reader.Has (opened.getD []) input (readInput dev width height opened device input mem) := by
  have hstart : ∀ bytes : List Byte,
      Reader.Has bytes input ⟨.opened bytes device, mem, input, 0, []⟩ := by
    intro bytes
    refine ⟨rfl, Nat.zero_le _, rfl, rfl, rfl, ?_, ?_, ?_⟩
    · simp
    · exact fun hpos => absurd hpos (lt_irrefl 0)
    · simp [Buffer.field, OpenFile.opened]
  cases opened with
  | none => exact hstart []
  | some bytes => exact (hstart bytes).readLoop _

/-- Everything is stored inside the buffer of `width * height` bytes, and is the beginning
of the file there, exactly when the reads deliver no more than that. They never deliver
more than the file. -/
theorem read_input_inside_iff (width height : ℕ) (opened : Option (List Byte)) (device : φ)
    (input : ℕ) (mem : Buffer) (results : List ℤ)
    (hresults : (readInput dev width height opened device input mem).file.results = results) :
    ((∀ e ∈ (readInput dev width height opened device input mem).stored,
        e.Within ⟨input, width * height⟩) ∧
      (0 < (readInput dev width height opened device input mem).sz →
        (readInput dev width height opened device input mem).sz ≤ (width * height : ℕ) ∧
        (readInput dev width height opened device input mem).mem.field input
            (readInput dev width height opened device input mem).sz.toNat =
          (opened.getD []).take (readInput dev width height opened device input mem).sz.toNat) ↔
      transferred results ≤ width * height) ∧
    transferred results ≤ (opened.getD []).length := by
  have hread := readInput_has dev width height opened device input mem
  have htotal := hread.transferred
  rw [hresults] at htotal
  rw [htotal, hread.sz]
  refine ⟨⟨?_, ?_⟩, hread.pos⟩
  · rintro ⟨hinside, -⟩
    rcases Nat.eq_zero_or_pos (readInput dev width height opened device input mem).file.pos with
      hzero | hpos
    · rw [hzero]
      exact Nat.zero_le _
    · obtain ⟨e, he, hend⟩ := hread.reached hpos
      have hwithin := (hinside e he).2
      rw [hend] at hwithin
      exact Nat.le_of_add_le_add_left hwithin
  · intro hle
    refine ⟨?_, fun _ => ⟨Int.ofNat_le.mpr hle, hread.mem⟩⟩
    intro e he
    obtain ⟨hlo, hhi⟩ := hread.stored e he
    exact ⟨hlo, hhi.trans (Nat.add_le_add_left hle input)⟩

/-- A device that delivers as much as is asked for. -/
def allAtOnce : Device Unit := fun _ len => (len, ())

/-- A file of 200 bytes goes into the buffer of a frame of one macroblock. -/
theorem read_input_inside_iff_short :
    let r := readInput allAtOnce 16 16 (some (List.replicate 200 7)) () 4096 fun _ => 0
    (∀ e ∈ r.stored, e.Within ⟨4096, 256⟩) ∧ r.sz = 200 := by
  refine ⟨?_, by decide +kernel⟩
  exact ((read_input_inside_iff allAtOnce 16 16 (some (List.replicate 200 7)) () 4096 (fun _ => 0)
    [200, 0] (by decide +kernel)).1.mpr (by decide)).1

/-- One of 300 bytes is stored 44 bytes past its end. -/
theorem read_input_past_end :
    let r := readInput allAtOnce 16 16 (some (List.replicate 300 7)) () 4096 fun _ => 0
    r.stored.map (fun e => (e.start, e.len)) = [(4096, 256), (4352, 44)] ∧
      ¬Extent.Within ⟨4352, 44⟩ ⟨4096, 256⟩ ∧ r.sz = 300 ∧ r.mem 4395 = 7 := by
  decide +kernel

end Libdce.Sample
