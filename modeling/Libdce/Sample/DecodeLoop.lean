import Libdce.Foundation.GuardedRuns
import Libdce.Sample.Display

/-!
# The decode loop

Each turn of the loop in `main` gets a free buffer, reads a frame of input, has the codec
process both, displays the frames that the codec gives out, and puts the buffers that the
codec has unlocked back on the free list. The codec holds a buffer from the call that it
is passed to until its id comes back.

## Implementation notes

What the input file and the codec answer in a turn is an argument of the step. `numBufs`
of the output is 2 throughout; the number of bytes passed before the first input is not
set by the sample, and is taken to be zero. The codec's side of the bookkeeping, which
buffers it holds, is kept next to the decoder's state and is not read by it. After a failed
call nothing is known of what came back, so that the codec is taken to hold the buffer.
-/

namespace Libdce.Sample

open Foundation.LinkedStack Foundation.GuardedRuns

/-- What the world answers in a turn. -/
structure Turn where
  /-- What `read_input` returns. -/
  n : ℤ
  /-- What `VIDDEC3_process` returns. -/
  err : ℤ
  outArgs : OutArgs

/-- What is passed to `VIDDEC3_process`. -/
structure ProcessCall where
  numBufs : ℤ
  numBytes : ℤ
  inputID : Word
  y : Word
  uv : Word
  deriving DecidableEq, Repr

/-- Where the loop is. -/
inductive LoopState where
  /-- At the head. -/
  | looping
  /-- Left for `shutdown`. -/
  | shutdown
  /-- Past the end of an array of ids. -/
  | wild
  deriving DecidableEq, Repr

/-- What the loop works on; `numBufs` is that of the input. -/
structure Decoder where
  buffers : Buffers
  numBufs : ℤ
  numBytes : ℤ
  inCnt : ℤ
  outCnt : ℤ
  calls : List ProcessCall
  frames : List FrameCall
  state : LoopState

/-- The input is read and everything is passed to the codec, with a buffer for the
output. -/
def Decoder.process (d : Decoder) (buf : Word) (n : ℤ) : Decoder :=
  let d := if n ≠ 0 then { d with numBytes := n, inCnt := d.inCnt + 1 } else { d with numBufs := 0 }
  let buffer := d.buffers.mem buf
  { d with calls := d.calls ++ [⟨d.numBufs, d.numBytes, buf, buffer.y, buffer.uv⟩] }

/-- The frames are displayed and the unlocked buffers released. -/
def Decoder.output (sizes : FrameSizes) (d : Decoder) (args : OutArgs) : Decoder :=
  match displayFrames sizes d.buffers.mem args d.outCnt, scanIds args.freeBufID.ids with
  | some frames, some freed =>
      { d with
        frames := d.frames ++ frames
        outCnt := d.outCnt + frames.length
        buffers := freed.foldl Buffers.outputRelease d.buffers }
  | _, _ => { d with state := .wild }

/-- A turn of the loop. -/
def decodeTurn (sizes : FrameSizes) (d : Decoder) (t : Turn) : Decoder :=
  let (buf, buffers) := d.buffers.outputGet
  if buf = 0 then { d with state := .shutdown }
  else
    let d := { d with buffers := buffers }.process buf t.n
    if t.err ≠ 0 then { d with state := .shutdown } else d.output sizes t.outArgs

/-- The decoder, and the buffers that the codec holds. -/
structure System where
  decoder : Decoder
  held : Finset Word

/-- The buffer that the next call is passed, null if there is none. -/
def System.handed (s : System) : Word := s.decoder.buffers.outputGet.1

/-- What the codec holds after a turn. -/
def System.heldAfter (s : System) (t : Turn) : Finset Word :=
  if s.handed = 0 then s.held
  else if t.err ≠ 0 then insert s.handed s.held
  else insert s.handed s.held \ t.outArgs.freeBufID.ids.toFinset

/-- A turn of the loop, with the codec's side of it. -/
def System.turn (sizes : FrameSizes) (s : System) (t : Turn) : System :=
  ⟨decodeTurn sizes s.decoder t, s.heldAfter t⟩

/-- Different ids of held buffers, and zeros after them. -/
def IdArray.Lists (ids : IdArray) (held : Finset Word) : Prop :=
  ∃ listed : List Word, listed.Nodup ∧ (∀ id ∈ listed, id ∈ held) ∧
    ∃ k, ids.ids = listed ++ List.replicate k 0

/-- What the codec promises of a call. -/
def System.Contract (s : System) (t : Turn) : Prop :=
  s.handed ≠ 0 → t.err = 0 →
    t.outArgs.outputID.Lists (insert s.handed s.held) ∧
      t.outArgs.freeBufID.Lists (insert s.handed s.held)

/-- The turns of the loop: it is at its head and has not come to the end of the input. -/
def System.Allowed (s : System) (t : Turn) : Prop :=
  s.decoder.state = .looping ∧ s.decoder.numBufs ≠ 0 ∧ s.Contract t

/-- When the loop is entered. What is in the memory before does not matter. -/
def System.start (mem : Word → OutputBuffer) (virtToPhys : Word → Word) (uvOffset : ℤ)
    (grants : List Grant) : System where
  decoder :=
    { buffers := Buffers.outputAllocate virtToPhys uvOffset ⟨0, mem⟩ grants
      numBufs := 1
      numBytes := 0
      inCnt := 0
      outCnt := 0
      calls := []
      frames := []
      state := .looping }
  held := ∅

/-- The addresses of the structures. -/
def nodes (grants : List Grant) : Finset Word := (grants.map Grant.node).toFinset

/-- The structures were allocated: they have different addresses. -/
structure Granted (grants : List Grant) : Prop where
  nodup : (grants.map Grant.node).Nodup
  nonnull : ∀ g ∈ grants, g.node ≠ 0

section Scans

variable {ids : IdArray} {held : Finset Word}

theorem scanIds_append_replicate {listed : List Word} (hlisted : (0 : Word) ∉ listed) {k : ℕ}
    (hk : 0 < k) : scanIds (listed ++ List.replicate k 0) = some listed := by
  induction listed with
  | nil =>
      obtain ⟨k, rfl⟩ := Nat.exists_eq_succ_of_ne_zero hk.ne'
      rfl
  | cons id listed ih =>
      rw [List.mem_cons, not_or] at hlisted
      rw [List.cons_append, scanIds, if_neg (Ne.symm hlisted.1), ih hlisted.2]
      rfl

theorem IdArray.lists_ofList {listed : List Word} (hle : listed.length ≤ maxIoBuffers)
    (hnodup : listed.Nodup) (hmem : ∀ id ∈ listed, id ∈ held) :
    (IdArray.ofList listed hle).Lists held :=
  ⟨listed, hnodup, hmem, _, rfl⟩

/-- A scan comes to a zero when fewer buffers are held than the array has entries. -/
theorem IdArray.Lists.scan (h : ids.Lists held) (hheld : (0 : Word) ∉ held)
    (hcard : held.card < maxIoBuffers) :
    ∃ listed : List Word, scanIds ids.ids = some listed ∧ listed.Nodup ∧ (∀ id ∈ listed, id ∈ held) ∧
      held \ ids.ids.toFinset = held \ listed.toFinset := by
  obtain ⟨listed, hnodup, hmem, k, hids⟩ := h
  have hlength := ids.length_ids
  rw [hids, List.length_append, List.length_replicate] at hlength
  have hsub : listed.toFinset ⊆ held := fun id hid => hmem id (List.mem_toFinset.mp hid)
  have hle : listed.length ≤ held.card := calc
    listed.length = listed.toFinset.card := (List.toFinset_card_of_nodup hnodup).symm
    _ ≤ held.card := Finset.card_le_card hsub
  refine ⟨listed, ?_, hnodup, hmem, ?_⟩
  · rw [hids]
    exact scanIds_append_replicate (fun hzero => hheld (hmem 0 hzero)) (by omega)
  · ext id
    simp only [hids, Finset.mem_sdiff, List.mem_toFinset, List.mem_append, List.mem_replicate]
    constructor
    · rintro ⟨hid, hnot⟩
      exact ⟨hid, fun hin => hnot (.inl hin)⟩
    · rintro ⟨hid, hnot⟩
      refine ⟨hid, ?_⟩
      rintro (hin | ⟨-, rfl⟩)
      · exact hnot hin
      · exact hheld hid

end Scans

section Turns

variable {sizes : FrameSizes} {grants : List Grant} {s : System} {t : Turn} {free : List Word}

theorem Granted.zero_not_mem (h : Granted grants) : (0 : Word) ∉ nodes grants := by
  intro hmem
  obtain ⟨g, hg, hnode⟩ := List.mem_map.mp (List.mem_toFinset.mp hmem)
  exact h.nonnull g hg hnode

theorem Granted.card_nodes (h : Granted grants) : (nodes grants).card = grants.length := by
  rw [nodes, List.toFinset_card_of_nodup h.nodup, List.length_map]

theorem handed_eq_head (s : System) : s.handed = s.decoder.buffers.head := outputGet_fst _

/-- A buffer that is handed over was free. -/
theorem handed_not_held (h : s.decoder.buffers.Split (nodes grants) s.held free)
    (hhanded : s.handed ≠ 0) : s.handed ∉ s.held := by
  rw [handed_eq_head] at hhanded ⊢
  exact Pool.head_not_held h hhanded

/-- Once it is handed over, the codec holds it, with buffers that were allocated. -/
theorem split_handed (h : s.decoder.buffers.Split (nodes grants) s.held free)
    (hhanded : s.handed ≠ 0) :
    s.decoder.buffers.outputGet.2.Split (nodes grants) (insert s.handed s.held) free.tail := by
  rw [handed_eq_head] at hhanded ⊢
  exact h.get hhanded

/-- The scans of the ids that come back meet a zero. -/
theorem scans_of_contract (hgranted : Granted grants) (hfew : grants.length < maxIoBuffers)
    (h : s.decoder.buffers.Split (nodes grants) s.held free) (hhanded : s.handed ≠ 0)
    {ids : IdArray} (hids : ids.Lists (insert s.handed s.held)) :
    ∃ listed : List Word, scanIds ids.ids = some listed ∧ listed.Nodup ∧
      (∀ id ∈ listed, id ≠ 0 ∧ id ∈ insert s.handed s.held) ∧
      insert s.handed s.held \ ids.ids.toFinset = insert s.handed s.held \ listed.toFinset := by
  have hheld := (split_handed h hhanded).held_subset
  have hzero : (0 : Word) ∉ insert s.handed s.held := fun hmem => hgranted.zero_not_mem (hheld hmem)
  have hcard : (insert s.handed s.held).card < maxIoBuffers := calc
    (insert s.handed s.held).card ≤ (nodes grants).card := Finset.card_le_card hheld
    _ = grants.length := hgranted.card_nodes
    _ < maxIoBuffers := hfew
  obtain ⟨listed, hscan, hnodup, hmem, hrest⟩ := hids.scan hzero hcard
  exact ⟨listed, hscan, hnodup, fun id hid => ⟨fun heq => hzero (heq ▸ hmem id hid), hmem id hid⟩, hrest⟩

@[simp] theorem Decoder.process_buffers (d : Decoder) (buf : Word) (n : ℤ) :
    (d.process buf n).buffers = d.buffers := by
  rw [Decoder.process]
  split <;> rfl

@[simp] theorem Decoder.process_state (d : Decoder) (buf : Word) (n : ℤ) :
    (d.process buf n).state = d.state := by
  rw [Decoder.process]
  split <;> rfl

theorem Decoder.calls_process (d : Decoder) (buf : Word) (n : ℤ) :
    ∃ call : ProcessCall, call.inputID = buf ∧ (d.process buf n).calls = d.calls ++ [call] := by
  rw [Decoder.process]
  split <;> exact ⟨_, rfl, rfl⟩

theorem Decoder.calls_output (sizes : FrameSizes) (d : Decoder) (args : OutArgs) :
    (d.output sizes args).calls = d.calls := by
  rw [Decoder.output]
  split <;> rfl

/-- The decoder when it calls the codec. -/
def System.calling (s : System) (t : Turn) : Decoder :=
  { s.decoder with buffers := s.decoder.buffers.outputGet.2 }.process s.handed t.n

theorem decodeTurn_eq (s : System) (t : Turn) : decodeTurn sizes s.decoder t =
    if s.handed = 0 then { s.decoder with state := .shutdown }
    else if t.err ≠ 0 then { s.calling t with state := .shutdown }
    else (s.calling t).output sizes t.outArgs := rfl

@[simp] theorem System.calling_buffers (s : System) (t : Turn) :
    (s.calling t).buffers = s.decoder.buffers.outputGet.2 := Decoder.process_buffers _ _ _

@[simp] theorem System.calling_state (s : System) (t : Turn) :
    (s.calling t).state = s.decoder.state := Decoder.process_state _ _ _

/-- What a turn does to the buffers: nothing if there is none, one changes hands, or one
changes hands and some come back. -/
theorem System.turn_cases (sizes : FrameSizes) (hgranted : Granted grants)
    (hfew : grants.length < maxIoBuffers) (h : s.decoder.buffers.Split (nodes grants) s.held free) (hallowed : s.Allowed t) :
    (s.handed = 0 ∧ (s.turn sizes t).decoder.buffers = s.decoder.buffers ∧
        (s.turn sizes t).held = s.held ∧ (s.turn sizes t).decoder.state = .shutdown) ∨
      (s.handed ≠ 0 ∧ t.err ≠ 0 ∧
        (s.turn sizes t).decoder.buffers = s.decoder.buffers.outputGet.2 ∧
        (s.turn sizes t).held = insert s.handed s.held ∧
        (s.turn sizes t).decoder.state = .shutdown) ∨
      (s.handed ≠ 0 ∧ t.err = 0 ∧ ∃ freed : List Word,
        scanIds t.outArgs.freeBufID.ids = some freed ∧ freed.Nodup ∧
        (∀ id ∈ freed, id ≠ 0 ∧ id ∈ insert s.handed s.held) ∧
        (s.turn sizes t).decoder.buffers =
          freed.foldl Buffers.outputRelease s.decoder.buffers.outputGet.2 ∧
        (s.turn sizes t).held = insert s.handed s.held \ freed.toFinset ∧
        (s.turn sizes t).decoder.state = .looping) := by
  obtain ⟨hstate, -, hcontract⟩ := hallowed
  simp only [System.turn, System.heldAfter, decodeTurn_eq]
  by_cases hhanded : s.handed = 0
  · left
    simp only [if_pos hhanded]
    exact ⟨hhanded, trivial, trivial, trivial⟩
  simp only [if_neg hhanded]
  by_cases herr : t.err = 0
  · right; right
    obtain ⟨houtput, hfree⟩ := hcontract hhanded herr
    obtain ⟨shown, hshown, -, -, -⟩ := scans_of_contract hgranted hfew h hhanded houtput
    obtain ⟨freed, hfreed, hnodup, hmem, hrest⟩ := scans_of_contract hgranted hfew h hhanded hfree
    refine ⟨hhanded, herr, freed, hfreed, hnodup, hmem, ?_⟩
    simp [herr, Decoder.output, displayFrames, hshown, hfreed, hrest, hstate]
  · right; left
    simp only [if_pos herr]
    exact ⟨hhanded, herr, s.calling_buffers t, trivial, trivial⟩

/-- The calls that a turn adds. -/
theorem calls_decodeTurn (sizes : FrameSizes) (s : System) (t : Turn) :
    ∃ call : ProcessCall, call.inputID = s.handed ∧ (decodeTurn sizes s.decoder t).calls =
      if s.handed = 0 then s.decoder.calls else s.decoder.calls ++ [call] := by
  obtain ⟨call, hid, hcalls⟩ := Decoder.calls_process
    { s.decoder with buffers := s.decoder.buffers.outputGet.2 } s.handed t.n
  refine ⟨call, hid, ?_⟩
  rw [decodeTurn_eq]
  split
  · rfl
  · split
    · exact hcalls
    · exact (Decoder.calls_output sizes (s.calling t) t.outArgs).trans hcalls

theorem inputID_of_call {call : ProcessCall}
    (hcall : (decodeTurn sizes s.decoder t).calls = s.decoder.calls ++ [call]) :
    s.handed ≠ 0 ∧ s.handed = call.inputID := by
  obtain ⟨call', hid, hcalls⟩ := calls_decodeTurn sizes s t
  rw [hcalls] at hcall
  by_cases hhanded : s.handed = 0
  · rw [if_pos hhanded, List.self_eq_append_right] at hcall
    exact absurd hcall (List.cons_ne_nil _ _)
  · rw [if_neg hhanded, List.append_cancel_left_eq, List.cons.injEq] at hcall
    exact ⟨hhanded, hid ▸ hcall.1 ▸ rfl⟩

/-- The buffers are on the free list or with the codec, and no array was left. -/
structure System.Kept (grants : List Grant) (s : System) : Prop where
  split : ∃ free, s.decoder.buffers.Split (nodes grants) s.held free
  tame : s.decoder.state ≠ .wild

theorem System.Kept.turn (hgranted : Granted grants) (hfew : grants.length < maxIoBuffers)
    (h : s.Kept grants) (hallowed : s.Allowed t) : (s.turn sizes t).Kept grants := by
  obtain ⟨free, hsplit⟩ := h.split
  rcases System.turn_cases sizes hgranted hfew hsplit hallowed with
    ⟨-, hbuffers, hheld, hstate⟩ | ⟨hhanded, -, hbuffers, hheld, hstate⟩ |
    ⟨hhanded, -, freed, -, hnodup, hmem, hbuffers, hheld, hstate⟩
  · refine ⟨⟨free, ?_⟩, by simp [hstate]⟩
    rw [hbuffers, hheld]
    exact hsplit
  · refine ⟨⟨free.tail, ?_⟩, by simp [hstate]⟩
    rw [hbuffers, hheld]
    exact split_handed hsplit hhanded
  · refine ⟨⟨freed.reverse ++ free.tail, ?_⟩, by simp [hstate]⟩
    rw [hbuffers, hheld]
    exact (split_handed hsplit hhanded).release_all hnodup hmem

theorem System.kept_start (hgranted : Granted grants) (mem : Word → OutputBuffer)
    (virtToPhys : Word → Word) (uvOffset : ℤ) :
    (System.start mem virtToPhys uvOffset grants).Kept grants := by
  have hempty : Buffers.Split ⟨0, mem⟩ ∅ ∅ [] := Pool.empty
  have hall := hempty.allocate virtToPhys uvOffset hgranted.nodup fun g hg =>
    ⟨hgranted.nonnull g hg, Finset.notMem_empty _⟩
  rw [Finset.empty_union] at hall
  exact ⟨⟨_, hall⟩, by simp [System.start]⟩

end Turns

/-- At the head of the loop no buffer is lost, and none will be handed over twice or make
a scan leave its array. -/
structure System.Sound (sizes : FrameSizes) (grants : List Grant) (s : System) : Prop where
  partition : ∃ free : List Word, Chain 0 s.decoder.buffers.next s.decoder.buffers.head free ∧
    free.Nodup ∧ Disjoint free.toFinset s.held ∧ free.toFinset ∪ s.held = nodes grants
  handed : ∀ t call, (decodeTurn sizes s.decoder t).calls = s.decoder.calls ++ [call] →
    call.inputID ∉ s.held
  scans : ∀ t, s.Allowed t → s.handed ≠ 0 → t.err = 0 →
    (scanIds t.outArgs.outputID.ids).isSome ∧ (scanIds t.outArgs.freeBufID.ids).isSome

theorem System.Kept.sound {sizes : FrameSizes} {grants : List Grant} {s : System} (h : s.Kept grants)
    (hgranted : Granted grants) (hfew : grants.length < maxIoBuffers) : s.Sound sizes grants := by
  obtain ⟨free, hsplit⟩ := h.split
  refine ⟨⟨free, hsplit.chain, hsplit.chain.nodup, hsplit.disjoint, hsplit.union⟩, ?_, ?_⟩
  · intro t call hcall
    obtain ⟨hhanded, hid⟩ := inputID_of_call hcall
    rw [← hid]
    exact handed_not_held hsplit hhanded
  · intro t hallowed hhanded herr
    obtain ⟨houtput, hfree⟩ := hallowed.2.2 hhanded herr
    obtain ⟨shown, hshown, -⟩ := scans_of_contract hgranted hfew hsplit hhanded houtput
    obtain ⟨freed, hfreed, -⟩ := scans_of_contract hgranted hfew hsplit hhanded hfree
    exact ⟨Option.isSome_of_eq_some hshown, Option.isSome_of_eq_some hfreed⟩

/-- The buffers are never lost, handed over twice or confused. -/
theorem decode_loop_sound {oned : Bool} {w h : ℤ} (hw : 0 < w) (hh : 0 < h) {sizes : FrameSizes}
    (hsizes : frameSizes oned w h = some sizes) {grants : List Grant} (hgranted : Granted grants)
    (hall : (grants.length : ℤ) = sizes.numBuffers) (mem : Word → OutputBuffer)
    (virtToPhys : Word → Word) (uvOffset : ℤ) {turns : List Turn}
    (run : Run (System.turn sizes) System.Allowed (System.start mem virtToPhys uvOffset grants) turns) :
    (final (System.turn sizes) (System.start mem virtToPhys uvOffset grants) turns).Sound sizes grants := by
  have hfew : grants.length < maxIoBuffers := by
    have hbounds := ((frameSizes_computed hsizes).numBuffers_bounds hw hh).2
    have hmax : maxIoBuffers = 20 := rfl
    omega
  have hkept := run.invariant (I := System.Kept grants)
    (System.kept_start hgranted mem virtToPhys uvOffset)
    fun s t hs hallowed => hs.turn hgranted hfew hallowed
  exact hkept.sound hgranted hfew

/-- Nineteen buffers. -/
def nineteen : List Grant :=
  (List.range 19).map fun k => ⟨BitVec.ofNat 32 (0x1000 + 16 * k), BitVec.ofNat 32 (0x100000 * (k + 1))⟩

theorem granted_nineteen : Granted nineteen := ⟨by decide +kernel, by decide +kernel⟩

/-- A turn in which the codec gives out some buffers and unlocks them. -/
def turnOf (n : ℤ) (ids : List Word) (h : ids.length ≤ maxIoBuffers) : Turn :=
  ⟨n, 0, ⟨.ofList ids h, .ofList ids h, fun _ => ⟨32, 24⟩⟩⟩

theorem none_fit : ([] : List Word).length ≤ maxIoBuffers := Nat.zero_le _

theorem one_fits : ([0x1120] : List Word).length ≤ maxIoBuffers := by decide

theorem allowed_turnOf {s : System} {n : ℤ} {ids : List Word} (h : ids.length ≤ maxIoBuffers)
    (hstate : s.decoder.state = .looping ∧ s.decoder.numBufs ≠ 0) (hnodup : ids.Nodup)
    (hmem : ∀ id ∈ ids, id ∈ insert s.handed s.held) : s.Allowed (turnOf n ids h) :=
  ⟨hstate.1, hstate.2, fun _ _ =>
    ⟨IdArray.lists_ofList h hnodup hmem, IdArray.lists_ofList h hnodup hmem⟩⟩

/-- The head of the loop with nineteen free buffers. -/
def beforeFirst : System := System.start (fun _ => ⟨0, 0, 0, 0⟩) id 14336 nineteen

/-- The codec has kept the buffer of the first turn. -/
def beforeSecond : System := beforeFirst.turn smallest (turnOf 100 [] none_fit)

theorem run_two_turns : Run (System.turn smallest) System.Allowed beforeFirst
    [turnOf 100 [] none_fit, turnOf 50 [0x1120] one_fits] := by
  have hfirst : beforeFirst.Allowed (turnOf 100 [] none_fit) :=
    allowed_turnOf _ (by decide +kernel) List.nodup_nil (List.forall_mem_nil _)
  have hsecond : beforeSecond.Allowed (turnOf 50 [0x1120] one_fits) :=
    allowed_turnOf _ (by decide +kernel) (List.nodup_singleton _)
      (List.forall_mem_singleton.mpr (by decide +kernel))
  exact ⟨hfirst, hsecond, trivial⟩

theorem length_nineteen : (nineteen.length : ℤ) = smallest.numBuffers := by decide +kernel

theorem decode_loop_sound_two_turns :
    (final (System.turn smallest) beforeFirst
      [turnOf 100 [] none_fit, turnOf 50 [0x1120] one_fits]).Sound smallest nineteen :=
  decode_loop_sound (by norm_num) (by norm_num) frameSizes_smallest granted_nineteen length_nineteen
    (fun _ => ⟨0, 0, 0, 0⟩) id 14336 run_two_turns

end Libdce.Sample
