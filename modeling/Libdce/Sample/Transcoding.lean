import Libdce.Sample.DecodeLoop
import Libdce.Sample.FilePaths
import Libdce.Sample.InputFrames

/-!
# From files to files

The loop of the sample reads one file after the other, up to the first that is missing or
empty, and writes the frames that the codec gives out to as many files. Without the paths,
the transfers and the disk, it turns a stream of frames into a list of pictures.

## Implementation notes

The disk is a function of the path. The codec is a function of the call and of the memory,
which it may change, with a state of its own. Whether an output file can be opened depends
on its path only; one that is not there is created empty.
-/

namespace Libdce.Sample

open Foundation.Bytes Foundation.Decimal Foundation.Format Foundation.PartialTransfers

abbrev Disk := CString → Option (List Byte)

/-- What the loop depends on. -/
structure Setting (κ φ : Type*) where
  sizes : FrameSizes
  inPattern : CString
  outPattern : CString
  /-- The address of the buffer for the input. -/
  input : ℕ
  dev : Device φ
  /-- What `realloc` finds in memory. -/
  fresh : φ → Buffer
  /-- Which output files can be opened. -/
  creates : CString → Bool
  /-- `VIDDEC3_process`: what it returns and puts in `outArgs`, and the memory and the
  codec after it. -/
  process : ProcessCall → Buffer → κ → (ℤ × OutArgs) × Buffer × κ

/-- What the loop changes. -/
structure Session (κ φ : Type*) where
  decoder : Decoder
  paths : PathState
  disk : Disk
  ram : Buffer
  device : φ
  codec : κ

/-- The loop goes on. -/
def Decoder.Loops (d : Decoder) : Prop := d.state = .looping ∧ d.numBufs ≠ 0

instance (d : Decoder) : Decidable d.Loops := inferInstanceAs (Decidable (_ ∧ _))

/-- The buffer for the next call, null if there is none. -/
def Decoder.handed (d : Decoder) : Word := d.buffers.outputGet.1

/-- A buffer is taken and the input read, and the codec is called. -/
def Decoder.calling (d : Decoder) (n : ℤ) : Decoder :=
  { d with buffers := d.buffers.outputGet.2 }.process d.handed n

/-- The call that passes a buffer to the codec. -/
def Decoder.call (d : Decoder) (buf : Word) : ProcessCall :=
  ⟨d.numBufs, d.numBytes, buf, (d.buffers.mem buf).y, (d.buffers.mem buf).uv⟩

/-- The bytes that a call of `write_output` is to write. -/
def FrameCall.content (sizes : FrameSizes) (ram : Buffer) (call : FrameCall) : List Byte :=
  unstrided sizes.width.toNat sizes.height.toNat sizes.stride.toNat (ram.advance call.y.toNat)
    (ram.advance call.uv.toNat)

/-- `get_path`, and the path that is read where it points to. -/
def openedPath (call : PathCall) (s : PathState) : Option (PathState × CString) := do
  let s ← getPath call s
  let path ← s.string
  return (s, path)

variable {κ φ : Type*}

namespace Session

variable (set : Setting κ φ)

/-- `read_input`, called by the loop. -/
def readInput (s : Session κ φ) : Option (ℤ × Session κ φ) :=
  (openedPath ⟨set.inPattern, s.decoder.inCnt, set.fresh s.device⟩ s.paths).map fun (paths, path) =>
    let r := Sample.readInput set.dev set.sizes.width.toNat set.sizes.height.toNat (s.disk path)
      s.device set.input s.ram
    (r.sz, { s with paths := paths, ram := r.mem, device := r.file.device })

/-- `write_output`, called by the loop. -/
def writeOutput (s : Session κ φ) (call : FrameCall) : Option (Session κ φ) :=
  (openedPath ⟨set.outPattern, call.cnt, set.fresh s.device⟩ s.paths).map fun (paths, path) =>
    let opened := if set.creates path then some ((s.disk path).getD []) else none
    match (call.write set.dev set.sizes s.ram opened s.device).2 with
    | none => { s with paths := paths }
    | some file =>
        { s with
          paths := paths
          disk := Function.update s.disk path (some file.bytes)
          device := file.device }

/-- The rest of a turn, when the codec has answered a call. -/
def answered (s : Session κ φ) (d : Decoder) (answer : (ℤ × OutArgs) × Buffer × κ) :
    Option (Session κ φ) :=
  let s := { s with ram := answer.2.1, codec := answer.2.2 }
  if answer.1.1 ≠ 0 then some { s with decoder := { d with state := .shutdown } }
  else
    let d' := d.output set.sizes answer.1.2
    (d'.frames.drop d.frames.length).foldlM (writeOutput set) { s with decoder := d' }

/-- A turn of the loop, with everything that it calls. -/
def turn (s : Session κ φ) : Option (Session κ φ) :=
  if s.decoder.handed = 0 then some { s with decoder := { s.decoder with state := .shutdown } }
  else
    (s.readInput set).bind fun (n, s) =>
      let d := s.decoder.calling n
      s.answered set d (set.process (d.call s.decoder.handed) s.ram s.codec)

/-- The loop, for some turns at most. -/
def play : ℕ → Session κ φ → Option (Session κ φ)
  | 0, s => some s
  | n + 1, s => if s.decoder.Loops then (s.turn set).bind (play n) else some s

end Session

/-- The loop without files: a stream of frames goes in, pictures come out. -/
structure Transcoder (κ : Type*) where
  decoder : Decoder
  ram : Buffer
  codec : κ
  pictures : List (List Byte)

namespace Transcoder

variable (set : Setting κ φ) (frames : ℕ → List Byte)

/-- What is displayed is taken from memory. -/
def answered (t : Transcoder κ) (d : Decoder) (answer : (ℤ × OutArgs) × Buffer × κ) :
    Transcoder κ :=
  let t := { t with ram := answer.2.1, codec := answer.2.2 }
  if answer.1.1 ≠ 0 then { t with decoder := { d with state := .shutdown } }
  else
    let d' := d.output set.sizes answer.1.2
    { t with
      decoder := d'
      pictures := t.pictures ++
        (d'.frames.drop d.frames.length).map (FrameCall.content set.sizes t.ram) }

/-- A frame of the stream is put in memory and passed to the codec. -/
def turn (t : Transcoder κ) : Transcoder κ :=
  if t.decoder.handed = 0 then { t with decoder := { t.decoder with state := .shutdown } }
  else
    let frame := frames t.decoder.inCnt.toNat
    let d := t.decoder.calling frame.length
    t.answered set d
      (set.process (d.call t.decoder.handed) (store t.ram set.input frame) t.codec)

def play : ℕ → Transcoder κ → Transcoder κ
  | 0, t => t
  | n + 1, t => if t.decoder.Loops then play n (t.turn set frames) else t

end Transcoder

/-- A pattern numbers these files. -/
structure Numbers (pattern : CString) (name : ℕ → CString) : Prop where
  expansion : ∀ cnt < 2 ^ 31, ∀ fresh,
    PathCall.expansion ⟨pattern, (cnt : ℕ), fresh⟩ = some (name cnt).chars
  short : ∀ cnt < 2 ^ 31, (name cnt).chars.length ≤ pattern.chars.length + 8

section Input

variable {dev : Device φ}

/-- Where every read delivers something, the loop stores what is left of the file. -/
theorem readLoop_whole (hprogress : ∀ d len, 0 < len → 1 ≤ (dev d len).1) {request : ℕ}
    (hrequest : 0 < request) (r : Reader φ) (hpos : r.file.pos ≤ r.file.bytes.length) :
    (readLoop dev request r).sz = r.sz + (r.file.bytes.length - r.file.pos : ℕ) ∧
      (readLoop dev request r).mem = store r.mem r.input (r.file.bytes.drop r.file.pos) := by
  induction hleft : r.file.bytes.length - r.file.pos using Nat.strong_induction_on
    generalizing r with
  | _ left ih =>
      subst hleft
      obtain ⟨hle, hdata, hbytes, hnext, -⟩ := OpenFile.read_result dev r.file request
      have hresult : (r.file.read dev request).1 = min (dev r.file.device request).1
          (min request (r.file.bytes.length - r.file.pos) : ℕ) := rfl
      have hanswer := hprogress r.file.device request hrequest
      rw [readLoop]
      by_cases hend : r.file.pos = r.file.bytes.length
      · rw [if_neg (by omega)]
        simp [hend, store_nil]
      · have hn : 0 < (r.file.read dev request).1 := by omega
        have hfits : (r.file.read dev request).1.toNat ≤ (r.file.bytes.drop r.file.pos).length := by
          rw [List.length_drop]
          omega
        have hlength : (r.file.read dev request).2.1.length = (r.file.read dev request).1.toNat := by
          rw [hdata, List.length_take_of_le hfits]
        rw [if_pos hn]
        obtain ⟨hsz, hmem⟩ := ih _ (by simp only [hbytes, hnext]; omega)
          { file := (r.file.read dev request).2.2
            mem := store r.mem r.input (r.file.read dev request).2.1
            input := r.input + (r.file.read dev request).1.toNat
            sz := r.sz + (r.file.read dev request).1
            stored := r.stored ++ [⟨r.input, (r.file.read dev request).1.toNat⟩] }
          (by simp only [hbytes, hnext]; omega) rfl
        simp only [hbytes, hnext] at hsz hmem
        constructor
        · rw [hsz]
          omega
        · rw [hmem, ← hlength, store_store, hdata, List.length_take_of_le hfits, ← List.drop_drop,
            List.take_append_drop]

/-- A frame of input is in memory, all of it. -/
theorem readInput_whole (hprogress : ∀ d len, 0 < len → 1 ≤ (dev d len).1) {width height : ℕ}
    (hsize : 0 < width * height) (opened : Option (List Byte)) (device : φ) (input : ℕ)
    (mem : Buffer) :
    (readInput dev width height opened device input mem).sz = (opened.getD []).length ∧
      (readInput dev width height opened device input mem).mem =
        store mem input (opened.getD []) := by
  cases opened with
  | none => exact ⟨rfl, (store_nil mem input).symm⟩
  | some bytes =>
      obtain ⟨hsz, hmem⟩ := readLoop_whole hprogress hsize ⟨.opened bytes device, mem, input, 0, []⟩
        (Nat.zero_le _)
      simp only [OpenFile.opened, Nat.sub_zero, zero_add, List.drop_zero] at hsz hmem
      exact ⟨hsz, hmem⟩

end Input

section Names

variable {pattern : CString} {name : ℕ → CString} {s : PathState}

namespace Numbers

/-- The path of a file is that of its number. -/
theorem openedPath (h : Numbers pattern name) (hs : s.len = s.size) {cnt : ℕ} (hcnt : cnt < 2 ^ 31)
    (fresh : Buffer) :
    ∃ s', Sample.openedPath ⟨pattern, cnt, fresh⟩ s = some (s', name cnt) ∧ s'.len = s'.size := by
  have hcovered : PathCall.Covered ⟨pattern, cnt, fresh⟩ :=
    ⟨_, h.expansion cnt hcnt fresh, h.short cnt hcnt⟩
  obtain ⟨s', hpath, hs', path, hstring, htext, -⟩ := getPath_spec hs hcovered
  rw [h.expansion cnt hcnt, Option.some.injEq] at htext
  have hname : path = name cnt := by
    cases path
    cases hcname : name cnt
    simp_all
  refine ⟨s', ?_, hs'⟩
  rw [Sample.openedPath, hpath, Option.bind_eq_bind, Option.bind_some, hstring, hname]
  rfl

theorem inj (h : Numbers pattern name) {i j : ℕ} (hi : i < 2 ^ 31) (hj : j < 2 ^ 31)
    (hname : name i = name j) : i = j := by
  have htext := h.expansion i hi fun _ => 0
  have htext' := h.expansion j hj fun _ => 0
  rw [hname] at htext
  have hcnt : (i : ℤ) = j := cnt_eq_of_expansion_eq (by rfl) htext htext'
  exact Int.ofNat_inj.mp hcnt

end Numbers

end Names

section Output

variable {set : Setting κ φ} {outName : ℕ → CString} {old disk : Disk}
  {pictures : List (List Byte)}

/-- The pictures are in the files of their numbers, over what was there, and no other file
has changed. -/
structure Exports (set : Setting κ φ) (outName : ℕ → CString) (old : Disk)
    (pictures : List (List Byte)) (disk : Disk) : Prop where
  written : ∀ j picture, pictures[j]? = some picture → set.creates (outName j) = true →
    disk (outName j) = some (picture ++ ((old (outName j)).getD []).drop picture.length)
  untouched : ∀ path, (∀ j < pictures.length, path = outName j → set.creates path = false) →
    disk path = old path

namespace Exports

theorem none : Exports set outName old [] old :=
  ⟨fun _ _ h => absurd h (by simp), fun _ _ => rfl⟩

/-- One more picture is written, if its file can be opened. -/
theorem next (h : Exports set outName old pictures disk) (hout : Numbers set.outPattern outName)
    (hfew : pictures.length < 2 ^ 31) {picture : List Byte} {disk' : Disk}
    (hkept : ∀ path ≠ outName pictures.length, disk' path = disk path)
    (hnew : disk' (outName pictures.length) =
      if set.creates (outName pictures.length) then
        some (picture ++ ((disk (outName pictures.length)).getD []).drop picture.length)
      else disk (outName pictures.length)) :
    Exports set outName old (pictures ++ [picture]) disk' := by
  have hother : ∀ j < pictures.length, outName j ≠ outName pictures.length := by
    intro j hj hname
    exact hj.ne (hout.inj (hj.trans hfew) hfew hname)
  have hnext : disk (outName pictures.length) = old (outName pictures.length) :=
    h.untouched _ fun j hj hname => absurd hname.symm (hother j hj)
  rw [hnext] at hnew
  constructor
  · intro j picture' hpicture hcreates
    by_cases hj : j < pictures.length
    · rw [List.getElem?_append_left hj] at hpicture
      rw [hkept _ (hother j hj)]
      exact h.written j picture' hpicture hcreates
    · obtain ⟨hlt, -⟩ := List.getElem?_eq_some_iff.mp hpicture
      rw [List.length_append, List.length_singleton] at hlt
      obtain rfl : j = pictures.length := by omega
      rw [List.getElem?_concat_length, Option.some.injEq] at hpicture
      rw [hnew, if_pos hcreates, hpicture]
  · intro path hpath
    by_cases hlast : path = outName pictures.length
    · have hcreates := hpath pictures.length (by simp) hlast
      subst hlast
      rw [hnew, hcreates]
      rfl
    · rw [hkept path hlast]
      refine h.untouched path fun j hj => hpath j ?_
      rw [List.length_append, List.length_singleton]
      omega

end Exports

/-- A call of `write_output`. -/
theorem Session.writeOutput_next (hprogress : ∀ d len, 0 < len → 1 ≤ (set.dev d len).1)
    (hout : Numbers set.outPattern outName) {s : Session κ φ} (hs : s.paths.len = s.paths.size)
    (h : Exports set outName old pictures s.disk) (call : FrameCall)
    (hcnt : call.cnt = pictures.length) (hfew : pictures.length < 2 ^ 31) :
    ∃ s', s.writeOutput set call = some s' ∧ s'.decoder = s.decoder ∧ s'.ram = s.ram ∧
      s'.codec = s.codec ∧ s'.paths.len = s'.paths.size ∧
      Exports set outName old (pictures ++ [call.content set.sizes s.ram]) s'.disk := by
  obtain ⟨paths, hpath, hpaths⟩ := hout.openedPath hs hfew (set.fresh s.device)
  rw [Session.writeOutput, hcnt, hpath, Option.map_some]
  by_cases hcreates : set.creates (outName pictures.length) = true
  · obtain ⟨file, hrun, hwritten, -⟩ := writeOutput_opened set.dev set.sizes.width.toNat
      set.sizes.height.toNat set.sizes.stride.toNat (s.ram.advance call.y.toNat)
      (s.ram.advance call.uv.toNat) ((s.disk (outName pictures.length)).getD []) s.device
    rw [rowHeads_of_progress set.dev hprogress] at hwritten
    simp only [if_pos hcreates, FrameCall.write, hrun]
    refine ⟨_, rfl, rfl, rfl, rfl, hpaths, ?_⟩
    apply h.next hout hfew
    · intro path hne
      exact Function.update_of_ne hne _ _
    · rw [if_pos hcreates]
      exact (Function.update_self _ _ _).trans (congrArg some hwritten.bytes)
  · simp only [if_neg hcreates]
    refine ⟨_, rfl, rfl, rfl, rfl, hpaths, ?_⟩
    exact h.next hout hfew (fun _ _ => rfl) (if_neg hcreates).symm

theorem length_displayLoop (sizes : FrameSizes) (mem : Word → OutputBuffer) (args : OutArgs)
    (ids : List Word) (outCnt : ℤ) : (displayLoop sizes mem args ids outCnt).length = ids.length := by
  induction ids generalizing outCnt with
  | nil => rfl
  | cons id ids ih => rw [displayLoop, List.length_cons, List.length_cons, ih]

/-- The loop that displays. -/
theorem Session.writeOutput_all (hprogress : ∀ d len, 0 < len → 1 ≤ (set.dev d len).1)
    (hout : Numbers set.outPattern outName) (mem : Word → OutputBuffer) (args : OutArgs)
    (ids : List Word) {outCnt : ℤ} {s : Session κ φ} (hs : s.paths.len = s.paths.size)
    (h : Exports set outName old pictures s.disk) (hcnt : outCnt = pictures.length)
    (hfew : pictures.length + ids.length ≤ 2 ^ 31) :
    ∃ s', (displayLoop set.sizes mem args ids outCnt).foldlM (writeOutput set) s = some s' ∧
      s'.decoder = s.decoder ∧ s'.ram = s.ram ∧ s'.codec = s.codec ∧
      s'.paths.len = s'.paths.size ∧
      Exports set outName old (pictures ++ (displayLoop set.sizes mem args ids outCnt).map
        (FrameCall.content set.sizes s.ram)) s'.disk := by
  induction ids generalizing outCnt pictures s with
  | nil =>
      refine ⟨s, rfl, rfl, rfl, rfl, hs, ?_⟩
      simpa [displayLoop] using h
  | cons id ids ih =>
      rw [List.length_cons] at hfew
      obtain ⟨s₁, hwrite, hdecoder, hram, hcodec, hpaths, hdisk⟩ :=
        writeOutput_next hprogress hout hs h (frameCall set.sizes mem args id outCnt) hcnt (by omega)
      have hcnt' : outCnt + 1 = (pictures ++
          [(frameCall set.sizes mem args id outCnt).content set.sizes s.ram]).length := by
        rw [List.length_append, List.length_singleton, hcnt, Nat.cast_succ]
      obtain ⟨s₂, hrest, hdecoder', hram', hcodec', hpaths', hdisk'⟩ :=
        ih hpaths hdisk hcnt' (by rw [List.length_append, List.length_singleton]; omega)
      refine ⟨s₂, ?_, hdecoder'.trans hdecoder, hram'.trans hram, hcodec'.trans hcodec, hpaths', ?_⟩
      · rw [displayLoop, List.foldlM_cons, hwrite]
        exact hrest
      · rw [hram, List.append_assoc] at hdisk'
        exact hdisk'

/-- An array of ids lists fewer buffers than it has entries. -/
theorem length_scanIds {ids listed : List Word} (h : scanIds ids = some listed) :
    listed.length < ids.length := by
  induction ids generalizing listed with
  | nil => cases h
  | cons id ids ih =>
      rw [scanIds] at h
      split at h
      · cases h
        exact Nat.zero_lt_succ _
      · obtain ⟨listed', hrest, rfl⟩ := Option.map_eq_some_iff.mp h
        exact Nat.succ_lt_succ (ih hrest)

/-- What is displayed in a turn, nothing if an array is left. -/
theorem Decoder.output_frames (sizes : FrameSizes) (d : Decoder) (args : OutArgs) :
    ∃ ids, (d.output sizes args).frames =
        d.frames ++ displayLoop sizes d.buffers.mem args ids d.outCnt ∧
      (d.output sizes args).outCnt = d.outCnt + ids.length ∧ ids.length ≤ 19 := by
  rw [Decoder.output, displayFrames]
  cases hids : scanIds args.outputID.ids with
  | none => exact ⟨[], (List.append_nil _).symm, (add_zero _).symm, Nat.zero_le _⟩
  | some ids =>
      cases scanIds args.freeBufID.ids with
      | none => exact ⟨[], (List.append_nil _).symm, (add_zero _).symm, Nat.zero_le _⟩
      | some freed =>
          have hlt := length_scanIds hids
          rw [args.outputID.length_ids, maxIoBuffers] at hlt
          refine ⟨ids, rfl, ?_, Nat.le_of_lt_succ hlt⟩
          simp only [Option.map_some, length_displayLoop]

theorem Decoder.calling_counts (d : Decoder) (n : ℤ) :
    (d.calling n).outCnt = d.outCnt ∧ d.inCnt ≤ (d.calling n).inCnt ∧
      (d.calling n).inCnt ≤ d.inCnt + 1 := by
  rw [Decoder.calling, Decoder.process]
  split
  · exact ⟨rfl, by dsimp only; omega, le_rfl⟩
  · exact ⟨rfl, le_rfl, by dsimp only; omega⟩

namespace Transcoder

variable (set : Setting κ φ) (frames : ℕ → List Byte) (t : Transcoder κ)

/-- The answer to a call does not touch the input. -/
theorem answered_keeps (d : Decoder) (answer : (ℤ × OutArgs) × Buffer × κ) :
    (t.answered set d answer).codec = answer.2.2 ∧
      (t.answered set d answer).decoder.numBufs = d.numBufs ∧
      (t.answered set d answer).decoder.inCnt = d.inCnt := by
  have houtput : ∀ args, (d.output set.sizes args).numBufs = d.numBufs ∧
      (d.output set.sizes args).inCnt = d.inCnt := by
    intro args
    rw [Decoder.output]
    split <;> exact ⟨rfl, rfl⟩
  rw [answered]
  split
  · exact ⟨rfl, rfl, rfl⟩
  · exact ⟨rfl, houtput _⟩

theorem pictures_answered (d : Decoder) (answer : (ℤ × OutArgs) × Buffer × κ) :
    t.pictures.length ≤ (t.answered set d answer).pictures.length ∧
      (t.answered set d answer).pictures.length ≤ t.pictures.length + 19 := by
  rw [answered]
  split
  · exact ⟨le_rfl, Nat.le_add_right _ _⟩
  · obtain ⟨ids, hframes, -, hle⟩ := d.output_frames set.sizes answer.1.2
    simp only [hframes, List.drop_left, List.length_append, List.length_map, length_displayLoop]
    exact ⟨Nat.le_add_right _ _, Nat.add_le_add_left hle _⟩

theorem pictures_turn : t.pictures.length ≤ (t.turn set frames).pictures.length ∧
    (t.turn set frames).pictures.length ≤ t.pictures.length + 19 := by
  rw [turn]
  split
  · exact ⟨le_rfl, Nat.le_add_right _ _⟩
  · exact t.pictures_answered set _ _

theorem pictures_play (n : ℕ) : t.pictures.length ≤ (t.play set frames n).pictures.length ∧
    (t.play set frames n).pictures.length ≤ t.pictures.length + 19 * n := by
  induction n generalizing t with
  | zero => exact ⟨le_rfl, le_rfl⟩
  | succ n ih =>
      rw [play]
      split
      · have hturn := t.pictures_turn set frames
        have hrest := ih (t.turn set frames)
        omega
      · exact ⟨le_rfl, Nat.le_add_right _ _⟩

theorem inCnt_turn : (t.turn set frames).decoder.inCnt ≤ t.decoder.inCnt + 1 := by
  rw [turn]
  split
  · dsimp only
    omega
  · obtain ⟨-, -, hle⟩ := t.decoder.calling_counts (frames t.decoder.inCnt.toNat).length
    obtain ⟨-, -, hinCnt⟩ := t.answered_keeps set
      (t.decoder.calling (frames t.decoder.inCnt.toNat).length) _
    exact hinCnt.trans_le hle

end Transcoder

end Output

section Simulation

variable {set : Setting κ φ} {inName outName : ℕ → CString} {old : Disk} {t : Transcoder κ}
  {s : Session κ φ}

/-- The frames of the input files. -/
def Disk.frames (old : Disk) (inName : ℕ → CString) (k : ℕ) : List Byte := (old (inName k)).getD []

/-- The loop has done with files what it does without them. -/
structure Shows (set : Setting κ φ) (outName : ℕ → CString) (old : Disk) (t : Transcoder κ)
    (s : Session κ φ) : Prop where
  decoder : s.decoder = t.decoder
  ram : s.ram = t.ram
  codec : s.codec = t.codec
  paths : s.paths.len = s.paths.size
  disk : Exports set outName old t.pictures s.disk
  inCnt : 0 ≤ t.decoder.inCnt
  outCnt : t.decoder.outCnt = t.pictures.length

/-- The disk does what it should, and input and output are apart. -/
structure Setting.Sane (set : Setting κ φ) (inName outName : ℕ → CString) : Prop where
  progress : ∀ d len, 0 < len → 1 ≤ (set.dev d len).1
  size : 0 < set.sizes.width.toNat * set.sizes.height.toNat
  input : Numbers set.inPattern inName
  output : Numbers set.outPattern outName
  apart : ∀ i j, inName i ≠ outName j

namespace Shows

/-- The frame that is read is that of the stream. -/
theorem readInput (h : Shows set outName old t s) (hset : set.Sane inName outName)
    (hcnt : t.decoder.inCnt < 2 ^ 31) :
    let frame := old.frames inName t.decoder.inCnt.toNat
    ∃ s' : Session κ φ, s.readInput set = some ((frame.length : ℤ), s') ∧ s'.decoder = t.decoder ∧
      s'.ram = store t.ram set.input frame ∧ s'.codec = t.codec ∧ s'.paths.len = s'.paths.size ∧
      Exports set outName old t.pictures s'.disk := by
  obtain ⟨cnt, hinCnt⟩ := Int.eq_ofNat_of_zero_le h.inCnt
  have hfile : s.disk (inName cnt) = old (inName cnt) :=
    h.disk.untouched _ fun j _ hname => absurd hname (hset.apart cnt j)
  have hframe : old.frames inName t.decoder.inCnt.toNat = (s.disk (inName cnt)).getD [] := by
    rw [hinCnt, Int.toNat_natCast, Disk.frames, hfile]
  obtain ⟨paths, hpath, hpaths⟩ := hset.input.openedPath h.paths (show cnt < 2 ^ 31 by omega)
    (set.fresh s.device)
  obtain ⟨hsz, hmem⟩ := readInput_whole hset.progress hset.size (s.disk (inName cnt)) s.device
    set.input s.ram
  rw [hframe, Session.readInput, h.decoder, hinCnt, hpath, Option.map_some]
  refine ⟨_, congrArg some (Prod.ext hsz rfl), rfl, ?_, h.codec, hpaths, h.disk⟩
  rw [← h.ram]
  exact hmem

/-- What the codec displays is written. -/
theorem answered (hset : set.Sane inName outName) (hpaths : s.paths.len = s.paths.size)
    (hdisk : Exports set outName old t.pictures s.disk) {d : Decoder} (hin : 0 ≤ d.inCnt)
    (hout : d.outCnt = t.pictures.length) (answer : (ℤ × OutArgs) × Buffer × κ)
    (hfew : (t.answered set d answer).pictures.length ≤ 2 ^ 31) :
    ∃ s', s.answered set d answer = some s' ∧ Shows set outName old (t.answered set d answer) s' := by
  obtain ⟨-, -, hcnt⟩ := t.answered_keeps set d answer
  rw [← hcnt] at hin
  rw [Session.answered]
  rw [Transcoder.answered] at hfew hin ⊢
  by_cases herr : answer.1.1 ≠ 0
  · simp only [if_pos herr] at hin ⊢
    exact ⟨_, rfl, rfl, rfl, rfl, hpaths, hdisk, hin, hout⟩
  · obtain ⟨ids, hframes, houtCnt, -⟩ := d.output_frames set.sizes answer.1.2
    simp only [if_neg herr, hframes, List.drop_left, List.length_append, List.length_map,
      length_displayLoop] at hfew hin ⊢
    obtain ⟨s', hwrite, hdecoder, hram, hcodec, hpaths', hdisk'⟩ :=
      Session.writeOutput_all hset.progress hset.output d.buffers.mem answer.1.2 ids
        (s := { s with
          ram := answer.2.1, codec := answer.2.2, decoder := d.output set.sizes answer.1.2 })
        hpaths hdisk hout hfew
    refine ⟨s', hwrite, hdecoder, hram, hcodec, hpaths', hdisk', hin, ?_⟩
    rw [houtCnt, hout, List.length_append, List.length_map, length_displayLoop, Nat.cast_add]

/-- A turn, as long as the counts are `int`s. -/
theorem turn (h : Shows set outName old t s) (hset : set.Sane inName outName)
    (hcnt : t.decoder.inCnt < 2 ^ 31)
    (hfew : (t.turn set (old.frames inName)).pictures.length ≤ 2 ^ 31) :
    ∃ s', s.turn set = some s' ∧ Shows set outName old (t.turn set (old.frames inName)) s' := by
  rw [Session.turn, h.decoder]
  rw [Transcoder.turn] at hfew ⊢
  by_cases hbuf : t.decoder.handed = 0
  · rw [if_pos hbuf, if_pos hbuf]
    exact ⟨_, rfl, rfl, h.ram, h.codec, h.paths, h.disk, h.inCnt, h.outCnt⟩
  · obtain ⟨s₁, hread, hdecoder, hram, hcodec, hpaths, hdisk⟩ := h.readInput hset hcnt
    generalize old.frames inName t.decoder.inCnt.toNat = frame at *
    obtain ⟨hout, hlow, -⟩ := t.decoder.calling_counts frame.length
    simp only [if_neg hbuf, hread, Option.bind_some, hdecoder, hram, hcodec] at hfew ⊢
    exact answered hset hpaths hdisk (h.inCnt.trans hlow) (hout.trans h.outCnt) _ hfew

/-- Any number of turns. -/
theorem play (hset : set.Sane inName outName) (n : ℕ) (h : Shows set outName old t s)
    (hcnt : t.decoder.inCnt + n ≤ 2 ^ 31)
    (hfew : (t.play set (old.frames inName) n).pictures.length ≤ 2 ^ 31) :
    ∃ s', s.play set n = some s' ∧
      Shows set outName old (t.play set (old.frames inName) n) s' := by
  induction n generalizing t s with
  | zero => exact ⟨s, rfl, h⟩
  | succ n ih =>
      rw [Session.play, h.decoder]
      rw [Transcoder.play] at hfew ⊢
      by_cases hloops : t.decoder.Loops
      · rw [if_pos hloops] at hfew
        rw [if_pos hloops, if_pos hloops]
        have hmono := ((t.turn set (old.frames inName)).pictures_play set (old.frames inName) n).1
        have hnext := t.inCnt_turn set (old.frames inName)
        obtain ⟨s₁, hturn, hshows⟩ := h.turn hset (by omega) (hmono.trans hfew)
        rw [hturn, Option.bind_some]
        exact ih hshows (by omega) hfew
      · rw [if_neg hloops, if_neg hloops]
        exact ⟨s, rfl, h⟩

end Shows

end Simulation

end Libdce.Sample
