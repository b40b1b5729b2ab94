import Libdce.Sample.DecodeLoop

/-!
# The exits of the sample

`main` leaves by two labels: `shutdown`, which deletes the codec, and `out` behind it,
which closes the engine and frees what has been allocated. Errors of the codec's control
calls go to `out` directly, and `output_free` only frees the buffers that are on the free
list.

## Implementation notes

Everything that `main` gets from the outside is an argument; memory is always granted.
Resources of different kinds are told apart by their constructors. `main` acquires
everything before it releases anything. A turn of the loop that finds no buffer asks nothing
of the outside, so that the loop is taken to end where it would begin.
-/

namespace Libdce.Sample

open Foundation.LinkedStack Foundation.GuardedRuns

/-- What has to be given back. -/
inductive Resource where
  | engine (engine : Word)
  | codec (codec : Word)
  /-- A block of `dce_alloc`. -/
  | dce (ptr : Word)
  /-- A buffer of `tiler_alloc`. -/
  | tiler (ptr : Word)
  /-- An `OutputBuffer`. -/
  | node (ptr : Word)
  deriving DecidableEq, Repr

/-- What `main` does to a resource. -/
inductive Event where
  | acquire (r : Resource)
  | release (r : Resource)
  deriving DecidableEq, Repr

/-- What the outside answers. -/
structure World where
  engine : Word
  params : Word
  codec : Word
  dynParams : Word
  status : Word
  /-- What the control call for `XDM_SETPARAMS` returns. -/
  setParams : ℤ
  /-- What the control call for `XDM_GETBUFINFO` returns. -/
  getBufInfo : ℤ
  inBufs : Word
  input : Word
  outBufs : Word
  grants : List Grant
  inArgs : Word
  outArgs : Word
  turns : List Turn

/-- The variables that `out` looks at. They are null until they are set. -/
structure Vars where
  engine : Word := 0
  params : Word := 0
  dynParams : Word := 0
  status : Word := 0
  inBufs : Word := 0
  outBufs : Word := 0
  inArgs : Word := 0
  outArgs : Word := 0
  input : Word := 0
  buffers : Buffers

section Main

variable (sizes : FrameSizes) (mem : Word → OutputBuffer) (virtToPhys : Word → Word) (uvOffset : ℤ)

/-- What `output_allocate` acquires. -/
def bufferAcquisitions (grants : List Grant) : List Resource :=
  grants.flatMap fun g => [.node g.node, .tiler g.block]

/-- What `output_free` releases. -/
def bufferReleases (freed : List Grant) : List Resource :=
  freed.flatMap fun g => [.tiler g.block, .node g.node]

/-- The blocks of `dce_alloc`, in the order in which they are freed. -/
def Vars.blocks (v : Vars) : List Word :=
  [v.params, v.dynParams, v.status, v.inBufs, v.outBufs, v.inArgs, v.outArgs]

/-- What `out` releases before it frees the output buffers. -/
def Vars.releases (v : Vars) : List Resource :=
  let engine := if v.engine ≠ 0 then [Resource.engine v.engine] else []
  let input := if v.input ≠ 0 then [Resource.tiler v.input] else []
  engine ++ (v.blocks.filter (· ≠ 0)).map .dce ++ input

/-- The code from `out` on: what it releases. -/
def Vars.out (v : Vars) (fuel : ℕ) : Option (List Resource) :=
  (v.buffers.outputFree fuel).map fun freed => v.releases ++ bufferReleases freed

/-- The loop is left: after an error, at the end of the input, or because no buffer is
left. -/
def Decoder.Ended (d : Decoder) : Prop :=
  d.state = .shutdown ∨ d.state = .looping ∧ (d.numBufs = 0 ∨ d.buffers.head = 0)

instance (d : Decoder) : Decidable d.Ended := inferInstanceAs (Decidable (_ ∨ _ ∧ (_ ∨ _)))

/-- The loop, for the answers that it gets in its turns. Nothing is returned if they are
too few or too many. -/
def decodeLoop (d : Decoder) : List Turn → Option Decoder
  | [] => if d.Ended then some d else none
  | t :: turns =>
      if d.state = .looping ∧ d.numBufs ≠ 0 then decodeLoop (decodeTurn sizes d t) turns else none

/-- `main` from where it opens the engine: what it acquires, and then releases. -/
def mainResources (world : World) (fuel : ℕ) : Option (List Resource × List Resource) :=
  let v : Vars := { engine := world.engine, buffers := ⟨0, mem⟩ }
  if world.engine = 0 then (v.out fuel).map fun released => ([], released)
  else
    let acquired := [.engine world.engine, .dce world.params]
    let v := { v with params := world.params }
    if world.codec = 0 then (v.out fuel).map fun released => (acquired, released)
    else
      let acquired := acquired ++ [.codec world.codec, .dce world.dynParams, .dce world.status]
      let v := { v with dynParams := world.dynParams, status := world.status }
      if world.setParams ≠ 0 then (v.out fuel).map fun released => (acquired, released)
      else if world.getBufInfo ≠ 0 then (v.out fuel).map fun released => (acquired, released)
      else
        let acquired := acquired ++ [.dce world.inBufs, .tiler world.input, .dce world.outBufs]
        let v := { v with inBufs := world.inBufs, input := world.input, outBufs := world.outBufs }
        let acquired := acquired ++ bufferAcquisitions world.grants
        let start := (System.start mem virtToPhys uvOffset world.grants).decoder
        let acquired := acquired ++ [.dce world.inArgs, .dce world.outArgs]
        let v := { v with inArgs := world.inArgs, outArgs := world.outArgs }
        (decodeLoop sizes start world.turns).bind fun d =>
          ({ v with buffers := d.buffers }.out fuel).map fun released =>
            (acquired, .codec world.codec :: released)

/-- `main` as a list of events. -/
def main (world : World) (fuel : ℕ) : Option (List Event) :=
  (mainResources sizes mem virtToPhys uvOffset world fuel).map fun (acquired, released) =>
    acquired.map Event.acquire ++ released.map Event.release

end Main

/-- What has been acquired is released exactly once, and a codec before its engine. -/
structure AllReleased (events : List Event) : Prop where
  once : ∀ r, .acquire r ∈ events → events.count (.release r) = 1
  order : ∀ codec engine, .acquire (.codec codec) ∈ events → .acquire (.engine engine) ∈ events →
    [.release (.codec codec), .release (.engine engine)].Sublist events

/-- The control calls succeed, so that the loop is reached. -/
structure World.Decodes (world : World) : Prop where
  engine : world.engine ≠ 0
  codec : world.codec ≠ 0
  setParams : world.setParams = 0
  getBufInfo : world.getBufInfo = 0

/-- The blocks that `main` gets from `dce_alloc`. -/
def World.blocks (world : World) : List Word :=
  [world.params, world.dynParams, world.status, world.inBufs, world.outBufs, world.inArgs, world.outArgs]

/-- The number of buffers that a turn gives back. -/
def Turn.unlocked (t : Turn) : ℕ := ((scanIds t.outArgs.freeBufID.ids).getD []).length

/-- Every process call succeeds, and as many buffers come back as were handed over. -/
def AllReturned (turns : List Turn) : Prop :=
  (∀ t ∈ turns, t.err = 0) ∧ (turns.map Turn.unlocked).sum = turns.length

instance : DecidablePred AllReturned := fun _ => inferInstanceAs (Decidable (_ ∧ _))

section Walks

variable {b : Buffers} {pool held : Finset Word} {free : List Word}

/-- What is freed are the structures on the list, each with its memory. -/
theorem outputFree_eq_walk (b : Buffers) (fuel : ℕ) : b.outputFree fuel =
    (walk 0 b.next fuel b.head).map (List.map fun p => ⟨p, (b.mem p).buf⟩) := by
  induction fuel generalizing b with
  | zero => rfl
  | succ fuel ih =>
      rw [Buffers.outputFree, walk]
      by_cases hhead : b.head = 0
      · rw [if_pos hhead, if_pos hhead]
        rfl
      · rw [if_neg hhead, if_neg hhead, ih, Option.map_map, Option.map_map]
        rfl

theorem Buffers.Split.outputFree (h : b.Split pool held free) {fuel : ℕ} (hfuel : free.length < fuel) :
    b.outputFree fuel = some (free.map fun p => ⟨p, (b.mem p).buf⟩) := by
  rw [outputFree_eq_walk, h.chain.walk hfuel, Option.map_some]

/-- Every structure points to the memory that was allocated with it. -/
def Buffers.Faithful (b : Buffers) (grants : List Grant) : Prop :=
  ∀ g ∈ grants, (b.mem g.node).buf = g.block

theorem faithful_congr {b b' : Buffers} {grants : List Grant} (h : b.Faithful grants)
    (hbuf : ∀ p, (b'.mem p).buf = (b.mem p).buf) : b'.Faithful grants := fun g hg =>
  (hbuf g.node).trans (h g hg)

theorem buf_outputGet (b : Buffers) (p : Word) : (b.outputGet.2.mem p).buf = (b.mem p).buf := by
  rw [Buffers.outputGet]
  split <;> rfl

theorem buf_outputRelease (b : Buffers) (bufs : List Word) (p : Word) :
    ((bufs.foldl Buffers.outputRelease b).mem p).buf = (b.mem p).buf := by
  induction bufs generalizing b with
  | nil => rfl
  | cons buf bufs ih =>
      rw [List.foldl_cons, ih]
      by_cases hp : p = buf
      · simp [Buffers.outputRelease, hp]
      · simp [Buffers.outputRelease, hp]

/-- A structure keeps what it got when those allocated later are different. -/
theorem buf_outputAllocate (virtToPhys : Word → Word) (uvOffset : ℤ) {grants : List Grant} {p : Word}
    (hp : ∀ g ∈ grants, g.node ≠ p) (b : Buffers) :
    ((b.outputAllocate virtToPhys uvOffset grants).mem p).buf = (b.mem p).buf := by
  induction grants generalizing b with
  | nil => rfl
  | cons g grants ih =>
      obtain ⟨hnode, hp⟩ := List.forall_mem_cons.mp hp
      rw [Buffers.outputAllocate, ih hp]
      simp [hnode.symm]

theorem faithful_outputAllocate (virtToPhys : Word → Word) (uvOffset : ℤ) {grants : List Grant}
    (hnodup : (grants.map Grant.node).Nodup) (b : Buffers) :
    (b.outputAllocate virtToPhys uvOffset grants).Faithful grants := by
  induction grants generalizing b with
  | nil => exact List.forall_mem_nil _
  | cons g grants ih =>
      rw [List.map_cons, List.nodup_cons] at hnodup
      refine List.forall_mem_cons.mpr ⟨?_, ih hnodup.2 _⟩
      have hlater : ∀ g' ∈ grants, g'.node ≠ g.node := by
        rintro g' hg' heq
        exact hnodup.1 (heq ▸ List.mem_map_of_mem hg')
      rw [Buffers.outputAllocate, buf_outputAllocate virtToPhys uvOffset hlater]
      simp

end Walks

section Loop

variable {sizes : FrameSizes} {grants : List Grant} {s : System}

/-- A turn that comes to the process call. -/
def System.Calls (s : System) (t : Turn) : Prop := s.Allowed t ∧ s.handed ≠ 0

/-- The loop is the run of the turns. -/
theorem decodeLoop_of_run {turns : List Turn} (run : Run (System.turn sizes) System.Calls s turns)
    (hend : (final (System.turn sizes) s turns).decoder.Ended) :
    decodeLoop sizes s.decoder turns = some (final (System.turn sizes) s turns).decoder := by
  induction turns generalizing s with
  | nil => exact if_pos hend
  | cons t turns ih =>
      obtain ⟨⟨⟨hstate, hnumBufs, -⟩, -⟩, hrest⟩ := run
      rw [decodeLoop, if_pos ⟨hstate, hnumBufs⟩]
      exact ih hrest hend

/-- The buffers keep to themselves all along the loop. -/
structure System.Tidy (grants : List Grant) (s : System) : Prop extends s.Kept grants where
  faithful : s.decoder.buffers.Faithful grants

theorem System.Tidy.turn (hgranted : Granted grants) (hfew : grants.length < maxIoBuffers)
    (h : s.Tidy grants) {t : Turn} (hallowed : s.Allowed t) : (s.turn sizes t).Tidy grants := by
  refine ⟨h.toKept.turn hgranted hfew hallowed, faithful_congr h.faithful ?_⟩
  obtain ⟨free, hsplit⟩ := h.split
  intro p
  rcases System.turn_cases sizes hgranted hfew hsplit hallowed with
    ⟨-, hbuffers, -⟩ | ⟨-, -, hbuffers, -⟩ | ⟨-, -, freed, -, -, -, hbuffers, -⟩
  · rw [hbuffers]
  · rw [hbuffers, buf_outputGet]
  · rw [hbuffers, buf_outputRelease, buf_outputGet]

/-- How many buffers the codec holds, as long as no call has failed; after one that has,
it holds some. -/
structure System.Counted (turns : List Turn) (s : System) : Prop where
  card : (∀ t ∈ turns, t.err = 0) → s.held.card + (turns.map Turn.unlocked).sum = turns.length
  failed : ¬(∀ t ∈ turns, t.err = 0) → s.held ≠ ∅ ∧ s.decoder.state = .shutdown

theorem System.Counted.turn (hgranted : Granted grants) (hfew : grants.length < maxIoBuffers)
    (hkept : s.Kept grants) {turns : List Turn} (h : s.Counted turns) {t : Turn} (hcalls : s.Calls t) :
    (s.turn sizes t).Counted (turns ++ [t]) := by
  obtain ⟨hallowed, hhanded⟩ := hcalls
  obtain ⟨free, hsplit⟩ := hkept.split
  have hbefore : ∀ t ∈ turns, t.err = 0 := by
    by_contra hfailed
    exact absurd ((h.failed hfailed).2.symm.trans hallowed.1) (by decide)
  have hcard := h.card hbefore
  rcases System.turn_cases sizes hgranted hfew hsplit hallowed with
    ⟨hnone, -⟩ | ⟨-, herr, -, hheld, hstate⟩ | ⟨-, herr, freed, hfreed, hnodup, hmem, -, hheld, -⟩
  · exact absurd hnone hhanded
  · refine ⟨fun hall => absurd (hall t (by simp)) herr, fun _ => ⟨?_, hstate⟩⟩
    rw [hheld]
    exact Finset.insert_ne_empty _ _
  · have hall : ∀ t' ∈ turns ++ [t], t'.err = 0 :=
      List.forall_mem_append.mpr ⟨hbefore, List.forall_mem_singleton.mpr herr⟩
    refine ⟨fun _ => ?_, fun hfailed => absurd hall hfailed⟩
    have hsub : freed.toFinset ⊆ insert s.handed s.held := fun id hid =>
      (hmem id (List.mem_toFinset.mp hid)).2
    have hsplitCard := Finset.card_sdiff_add_card_eq_card hsub
    rw [Finset.card_insert_of_notMem (handed_not_held hsplit hhanded),
      List.toFinset_card_of_nodup hnodup] at hsplitCard
    have hunlocked : t.unlocked = freed.length := by
      rw [Turn.unlocked, hfreed, Option.getD_some]
    rw [hheld, List.map_append, List.sum_append, List.length_append]
    simp only [List.map_cons, List.map_nil, List.sum_cons, List.sum_nil, List.length_singleton, hunlocked]
    omega

theorem System.tidy_start (hgranted : Granted grants) (mem : Word → OutputBuffer)
    (virtToPhys : Word → Word) (uvOffset : ℤ) :
    (System.start mem virtToPhys uvOffset grants).Tidy grants :=
  ⟨System.kept_start hgranted mem virtToPhys uvOffset,
    faithful_outputAllocate virtToPhys uvOffset hgranted.nodup _⟩

theorem System.Tidy.run (hgranted : Granted grants) (hfew : grants.length < maxIoBuffers)
    (h : s.Tidy grants) {turns : List Turn} (run : Run (System.turn sizes) System.Calls s turns) :
    (final (System.turn sizes) s turns).Tidy grants :=
  run.invariant h fun _ _ hs hcalls => hs.turn hgranted hfew hcalls.1

/-- The count of a whole run, turn by turn from the first. -/
theorem System.Counted.run (hgranted : Granted grants) (hfew : grants.length < maxIoBuffers)
    (h : s.Tidy grants) (hheld : s.held = ∅) {turns : List Turn}
    (run : Run (System.turn sizes) System.Calls s turns) :
    (final (System.turn sizes) s turns).Counted turns := by
  induction turns using List.reverseRecOn with
  | nil => exact ⟨fun _ => by simp [hheld], fun hfailed => absurd (List.forall_mem_nil _) hfailed⟩
  | append_singleton turns t ih =>
      obtain ⟨hturns, hcalls⟩ := (run_concat s turns t).mp run
      rw [final_concat]
      exact (ih hturns).turn hgranted hfew (h.run hgranted hfew hturns).toKept hcalls

/-- The codec holds nothing exactly when everything has been returned. -/
theorem System.Counted.held_eq_empty_iff {turns : List Turn} (h : s.Counted turns) :
    s.held = ∅ ↔ AllReturned turns := by
  by_cases hall : ∀ t ∈ turns, t.err = 0
  · have hcard := h.card hall
    rw [← Finset.card_eq_zero, AllReturned, and_iff_right hall]
    omega
  · exact iff_of_false (h.failed hall).1 fun hreturned => hall hreturned.1

/-- A buffer on the free list is freed with the memory it was allocated with. -/
theorem System.Tidy.mem_freed_iff (h : s.Tidy grants) {free : List Word}
    (hsplit : s.decoder.buffers.Split (nodes grants) s.held free) {g : Grant} :
    g ∈ free.map (fun p => (⟨p, (s.decoder.buffers.mem p).buf⟩ : Grant)) ↔
      g ∈ grants ∧ g.node ∈ free := by
  have hgrant : ∀ g ∈ grants, (⟨g.node, (s.decoder.buffers.mem g.node).buf⟩ : Grant) = g := by
    intro g hg
    rw [h.faithful g hg]
  constructor
  · intro hg
    obtain ⟨p, hp, rfl⟩ := List.mem_map.mp hg
    have hmem : p ∈ nodes grants := hsplit.union ▸ Finset.mem_union_left _ (List.mem_toFinset.mpr hp)
    obtain ⟨g, hgrants, rfl⟩ := List.mem_map.mp (List.mem_toFinset.mp hmem)
    rw [hgrant g hgrants]
    exact ⟨hgrants, hp⟩
  · rintro ⟨hg, hfree⟩
    exact List.mem_map.mpr ⟨g.node, hfree, hgrant g hg⟩

/-- The buffers that are freed at the end: allocated ones, all of them if the codec holds
none. -/
theorem System.Tidy.freed (hgranted : Granted grants) (h : s.Tidy grants) {fuel : ℕ}
    (hfuel : grants.length < fuel) :
    ∃ freed, s.decoder.buffers.outputFree fuel = some freed ∧ (freed.map Grant.node).Nodup ∧
      freed ⊆ grants ∧ (grants ⊆ freed ↔ s.held = ∅) := by
  obtain ⟨free, hsplit⟩ := h.split
  have hlength : free.length ≤ grants.length := calc
    free.length ≤ free.length + s.held.card := Nat.le_add_right _ _
    _ = (nodes grants).card := Pool.card hsplit
    _ = grants.length := hgranted.card_nodes
  refine ⟨_, hsplit.outputFree (hlength.trans_lt hfuel), ?_, ?_, ?_⟩
  · rw [List.map_map]
    exact (List.map_id free).symm ▸ hsplit.chain.nodup
  · exact fun g hg => ((h.mem_freed_iff hsplit).mp hg).1
  · rw [← Pool.forall_mem_free_iff hsplit]
    constructor
    · intro hsub p hp
      obtain ⟨g, hg, rfl⟩ := List.mem_map.mp (List.mem_toFinset.mp hp)
      exact ((h.mem_freed_iff hsplit).mp (hsub hg)).2
    · intro hall g hg
      refine (h.mem_freed_iff hsplit).mpr ⟨hg, hall g.node ?_⟩
      exact List.mem_toFinset.mpr (List.mem_map_of_mem hg)

end Loop

section Events

variable {acquired released : List Resource} {r : Resource}

theorem acquire_mem_iff :
    Event.acquire r ∈ acquired.map Event.acquire ++ released.map Event.release ↔ r ∈ acquired := by
  simp

theorem count_release :
    (acquired.map Event.acquire ++ released.map Event.release).count (.release r) =
      released.count r := by
  have hinj : Function.Injective Event.release := fun _ _ h => Event.release.inj h
  have hnone : (acquired.map Event.acquire).count (.release r) = 0 :=
    List.count_eq_zero_of_not_mem (by simp)
  rw [List.count_append, hnone, Nat.zero_add, List.count_map_of_injective _ _ hinj]

/-- What is acquired and not released is missed. -/
theorem AllReleased.mem (h : AllReleased (acquired.map Event.acquire ++ released.map Event.release))
    (hr : r ∈ acquired) : r ∈ released := by
  have honce := h.once r (acquire_mem_iff.mpr hr)
  rw [count_release] at honce
  exact List.count_pos_iff.mp (by omega)

/-- It is enough that the releases are different and leave nothing out. -/
theorem allReleased_of_nodup (hnodup : released.Nodup) (hall : ∀ r ∈ acquired, r ∈ released)
    (horder : ∀ codec engine, .codec codec ∈ acquired → .engine engine ∈ acquired →
      [Resource.codec codec, .engine engine].Sublist released) :
    AllReleased (acquired.map Event.acquire ++ released.map Event.release) := by
  refine ⟨?_, ?_⟩
  · intro r hr
    rw [count_release]
    exact List.count_eq_one_of_mem hnodup (hall r (acquire_mem_iff.mp hr))
  · intro codec engine hcodec hengine
    have hsub := horder codec engine (acquire_mem_iff.mp hcodec) (acquire_mem_iff.mp hengine)
    exact (hsub.map Event.release).trans (List.sublist_append_right _ _)

variable {grants freed : List Grant} {p : Word}

theorem tiler_mem_bufferReleases : Resource.tiler p ∈ bufferReleases freed ↔ p ∈ freed.map Grant.block := by
  simp [bufferReleases, eq_comm]

theorem node_mem_bufferReleases : Resource.node p ∈ bufferReleases freed ↔ p ∈ freed.map Grant.node := by
  simp [bufferReleases, eq_comm]

theorem nodup_bufferReleases (hnodes : (freed.map Grant.node).Nodup)
    (hblocks : (freed.map Grant.block).Nodup) : (bufferReleases freed).Nodup := by
  induction freed with
  | nil => exact List.nodup_nil
  | cons g freed ih =>
      rw [List.map_cons, List.nodup_cons] at hnodes hblocks
      change (Resource.tiler g.block :: .node g.node :: bufferReleases freed).Nodup
      refine List.nodup_cons.mpr ⟨?_, List.nodup_cons.mpr ⟨?_, ih hnodes.2 hblocks.2⟩⟩
      · rw [List.mem_cons, not_or]
        exact ⟨by simp, fun h => hblocks.1 (tiler_mem_bufferReleases.mp h)⟩
      · exact fun h => hnodes.1 (node_mem_bufferReleases.mp h)

end Events

/-- The answers that `main` relies on: what is granted at the same time is different and
not null, and once the loop is reached the codec keeps to its contract until it ends. -/
structure World.Lawful (sizes : FrameSizes) (mem : Word → OutputBuffer) (virtToPhys : Word → Word)
    (uvOffset : ℤ) (world : World) : Prop where
  granted : Granted world.grants
  length : (world.grants.length : ℤ) = sizes.numBuffers
  blocks : world.blocks.Nodup
  blocks_nonnull : ∀ p ∈ world.blocks, p ≠ 0
  tiler : (world.input :: world.grants.map Grant.block).Nodup
  input : world.input ≠ 0
  run : world.Decodes → Run (System.turn sizes) System.Calls
    (System.start mem virtToPhys uvOffset world.grants) world.turns
  ended : world.Decodes → (final (System.turn sizes)
    (System.start mem virtToPhys uvOffset world.grants) world.turns).decoder.Ended

section Exits

variable {sizes : FrameSizes} {mem : Word → OutputBuffer} {virtToPhys : Word → Word} {uvOffset : ℤ}
  {world : World} {fuel : ℕ}

/-- Before the loop there is nothing on the free list. -/
theorem outputFree_empty (hfuel : 0 < fuel) : Buffers.outputFree ⟨0, mem⟩ fuel = some [] := by
  have hempty : Buffers.Split ⟨0, mem⟩ ∅ ∅ [] := Pool.empty
  exact hempty.outputFree hfuel

section Out

variable {v : Vars} {p : Word} {freed : List Grant}

theorem mem_releases_iff {r : Resource} : r ∈ v.releases ↔
    (v.engine ≠ 0 ∧ r = .engine v.engine) ∨ (∃ p, (p ∈ v.blocks ∧ p ≠ 0) ∧ r = .dce p) ∨
      (v.input ≠ 0 ∧ r = .tiler v.input) := by
  have hopt : ∀ (c : Prop) [Decidable c] (r' : Resource), r ∈ (if c then [r'] else []) ↔ c ∧ r = r' := by
    intro c _ r'
    by_cases hc : c <;> simp [hc]
  rw [Vars.releases, List.mem_append, List.mem_append, List.mem_map, or_assoc, hopt, hopt]
  refine or_congr Iff.rfl (or_congr (exists_congr fun p => ?_) Iff.rfl)
  rw [List.mem_filter, decide_eq_true_eq, eq_comm]

theorem nodup_releases (hblocks : (v.blocks.filter (· ≠ 0)).Nodup) : v.releases.Nodup := by
  rw [Vars.releases, List.nodup_append', List.nodup_append']
  refine ⟨⟨?_, hblocks.map fun _ _ => Resource.dce.inj, ?_⟩, ?_, ?_⟩
  · split <;> simp
  · split <;> simp [List.Disjoint]
  · split <;> simp
  · intro r hr hinput
    split at hinput
    · rw [List.mem_singleton] at hinput
      subst hinput
      split at hr <;> simp at hr
    · exact absurd hinput List.not_mem_nil

theorem nodup_out (hblocks : (v.blocks.filter (· ≠ 0)).Nodup)
    (hnodes : (freed.map Grant.node).Nodup) (htiler : (v.input :: freed.map Grant.block).Nodup) :
    (v.releases ++ bufferReleases freed).Nodup := by
  rw [List.nodup_cons] at htiler
  rw [List.nodup_append']
  refine ⟨nodup_releases hblocks, nodup_bufferReleases hnodes htiler.2, ?_⟩
  intro r hr hr'
  rcases mem_releases_iff.mp hr with ⟨-, rfl⟩ | ⟨p, -, rfl⟩ | ⟨-, rfl⟩
  · simp [bufferReleases] at hr'
  · simp [bufferReleases] at hr'
  · exact htiler.1 (tiler_mem_bufferReleases.mp hr')

theorem codec_not_mem_out {codec : Word} : .codec codec ∉ v.releases ++ bufferReleases freed := by
  simp [mem_releases_iff, bufferReleases]

end Out

variable (sizes mem virtToPhys uvOffset) in
/-- Whoever leaves before there is a codec releases everything. -/
theorem main_early (hfuel : 0 < fuel) (hparams : world.params ≠ 0)
    (h : world.engine = 0 ∨ world.codec = 0) :
    ∃ events, main sizes mem virtToPhys uvOffset world fuel = some events ∧ AllReleased events := by
  by_cases hengine : world.engine = 0
  · let v : Vars := { engine := world.engine, buffers := ⟨0, mem⟩ }
    have hreleased : AllReleased (([] : List Resource).map Event.acquire ++
        (v.releases ++ bufferReleases []).map Event.release) := by
      refine allReleased_of_nodup (nodup_out ?_ ?_ ?_) ?_ ?_
      · exact List.nodup_nil
      · exact List.nodup_nil
      · exact List.nodup_singleton _
      · exact List.forall_mem_nil _
      · exact fun _ _ hcodec => absurd hcodec List.not_mem_nil
    refine ⟨_, ?_, hreleased⟩
    simp only [main, mainResources, if_pos hengine, Vars.out, outputFree_empty hfuel, Option.map_some, v]
  · have hcodec := h.resolve_left hengine
    let v : Vars := { engine := world.engine, params := world.params, buffers := ⟨0, mem⟩ }
    have hblocks : ([world.params, 0, 0, 0, 0, 0, 0] : List Word).filter (· ≠ 0) = [world.params] :=
      List.filter_cons_of_pos (decide_eq_true hparams)
    have hreleased : AllReleased ([Resource.engine world.engine, .dce world.params].map Event.acquire ++
        (v.releases ++ bufferReleases []).map Event.release) := by
      refine allReleased_of_nodup (nodup_out ?_ ?_ ?_) ?_ ?_
      · exact hblocks ▸ List.nodup_singleton _
      · exact List.nodup_nil
      · exact List.nodup_singleton _
      · refine List.forall_mem_cons.mpr ⟨?_, List.forall_mem_singleton.mpr ?_⟩
        · exact List.mem_append_left _ (mem_releases_iff.mpr (.inl ⟨hengine, rfl⟩))
        · exact List.mem_append_left _ (mem_releases_iff.mpr
            (.inr (.inl ⟨world.params, ⟨List.mem_cons_self, hparams⟩, rfl⟩)))
      · intro codec engine hmem
        simp at hmem
    refine ⟨_, ?_, hreleased⟩
    simp only [main, mainResources, if_neg hengine, if_pos hcodec, Vars.out, outputFree_empty hfuel,
      Option.map_some, v]

variable (sizes mem virtToPhys uvOffset) in
/-- After a failed control call the codec is not deleted. -/
theorem main_refused (hfuel : 0 < fuel) (hengine : world.engine ≠ 0) (hcodec : world.codec ≠ 0)
    (h : ¬(world.setParams = 0 ∧ world.getBufInfo = 0)) :
    ∃ events, main sizes mem virtToPhys uvOffset world fuel = some events ∧ ¬AllReleased events := by
  obtain ⟨v, hrun⟩ : ∃ v : Vars, mainResources sizes mem virtToPhys uvOffset world fuel =
      some ([.engine world.engine, .dce world.params, .codec world.codec, .dce world.dynParams,
        .dce world.status], v.releases ++ bufferReleases []) := by
    refine ⟨{
      engine := world.engine
      params := world.params
      dynParams := world.dynParams
      status := world.status
      buffers := ⟨0, mem⟩ }, ?_⟩
    by_cases hsetParams : world.setParams = 0
    · have hgetBufInfo : world.getBufInfo ≠ 0 := fun hok => h ⟨hsetParams, hok⟩
      simp only [mainResources, if_neg hengine, if_neg hcodec, if_neg (not_not.mpr hsetParams),
        if_pos hgetBufInfo, Vars.out, outputFree_empty hfuel, Option.map_some]
      rfl
    · simp only [mainResources, if_neg hengine, if_neg hcodec, if_pos hsetParams, Vars.out,
        outputFree_empty hfuel, Option.map_some]
      rfl
  refine ⟨_, by rw [main, hrun, Option.map_some], fun hreleased => ?_⟩
  exact codec_not_mem_out (hreleased.mem (r := .codec world.codec) (by simp))

/-- The variables at the end of a run that has come to the loop. -/
def World.vars (world : World) (buffers : Buffers) : Vars where
  engine := world.engine
  params := world.params
  dynParams := world.dynParams
  status := world.status
  inBufs := world.inBufs
  outBufs := world.outBufs
  inArgs := world.inArgs
  outArgs := world.outArgs
  input := world.input
  buffers := buffers

/-- What has been acquired when the loop is entered. -/
def World.acquired (world : World) : List Resource :=
  [.engine world.engine, .dce world.params, .codec world.codec, .dce world.dynParams,
    .dce world.status, .dce world.inBufs, .tiler world.input, .dce world.outBufs] ++
      bufferAcquisitions world.grants ++ [.dce world.inArgs, .dce world.outArgs]

/-- What is released after the loop. -/
def World.released (world : World) (buffers : Buffers) (freed : List Grant) : List Resource :=
  .codec world.codec :: ((world.vars buffers).releases ++ bufferReleases freed)

theorem mainResources_decoded (hdecodes : world.Decodes) {d : Decoder}
    (hloop : decodeLoop sizes (System.start mem virtToPhys uvOffset world.grants).decoder world.turns =
      some d) {freed : List Grant} (hfreed : d.buffers.outputFree fuel = some freed) :
    mainResources sizes mem virtToPhys uvOffset world fuel =
      some (world.acquired, world.released d.buffers freed) := by
  simp only [mainResources, if_neg hdecodes.engine, if_neg hdecodes.codec,
    if_neg (not_not.mpr hdecodes.setParams), if_neg (not_not.mpr hdecodes.getBufInfo), hloop,
    Option.bind_some, Vars.out, hfreed, Option.map_some]
  rfl

section Released

variable {buffers : Buffers} {freed : List Grant}

theorem nodup_released (hworld : world.Lawful sizes mem virtToPhys uvOffset)
    (hnodes : (freed.map Grant.node).Nodup) (hsub : freed ⊆ world.grants) :
    (world.released buffers freed).Nodup := by
  obtain ⟨hfresh, hblocks⟩ := List.nodup_cons.mp hworld.tiler
  have htiler : (world.input :: freed.map Grant.block).Nodup := by
    refine List.nodup_cons.mpr ⟨fun hmem => hfresh (List.map_subset _ hsub hmem), ?_⟩
    refine hnodes.of_map.map_on fun g hg g' hg' heq => ?_
    exact List.inj_on_of_nodup_map hblocks (hsub hg) (hsub hg') heq
  exact List.nodup_cons.mpr
    ⟨codec_not_mem_out, nodup_out (hworld.blocks.filter _) hnodes htiler⟩

theorem engine_mem_releases (hdecodes : world.Decodes) :
    .engine world.engine ∈ (world.vars buffers).releases :=
  mem_releases_iff.mpr (.inl ⟨hdecodes.engine, rfl⟩)

/-- Whatever is not an output buffer is released. -/
theorem acquired_subset_released (hworld : world.Lawful sizes mem virtToPhys uvOffset)
    (hdecodes : world.Decodes) (hall : world.grants ⊆ freed) :
    ∀ r ∈ world.acquired, r ∈ world.released buffers freed := by
  have hengine : .engine world.engine ∈ (world.vars buffers).releases := engine_mem_releases hdecodes
  have hinput : Resource.tiler world.input ∈ (world.vars buffers).releases :=
    mem_releases_iff.mpr (.inr (.inr ⟨hworld.input, rfl⟩))
  have hblock : ∀ p ∈ world.blocks, Resource.dce p ∈ (world.vars buffers).releases := fun p hp =>
    mem_releases_iff.mpr (.inr (.inl ⟨p, ⟨hp, hworld.blocks_nonnull p hp⟩, rfl⟩))
  obtain ⟨hparams, hdynParams, hstatus, hinBufs, houtBufs, hinArgs, houtArgs, -⟩ := by
    simpa only [World.blocks, List.forall_mem_cons] using hblock
  refine List.forall_mem_append.mpr ⟨List.forall_mem_append.mpr ⟨?_, ?_⟩, ?_⟩
  · simp [World.released, hengine, hinput, hparams, hdynParams, hstatus, hinBufs, houtBufs]
  · intro r hr
    obtain ⟨g, hg, hr⟩ := List.mem_flatMap.mp hr
    apply List.mem_cons_of_mem
    apply List.mem_append_right
    refine List.mem_flatMap.mpr ⟨g, hall hg, ?_⟩
    simpa [or_comm] using hr
  · simp [World.released, hinArgs, houtArgs]

/-- The codec is deleted first, and the engine closed next. -/
theorem sublist_released (hdecodes : world.Decodes) {codec engine : Word}
    (hcodec : .codec codec ∈ world.acquired) (hengine : .engine engine ∈ world.acquired) :
    [Resource.codec codec, .engine engine].Sublist (world.released buffers freed) := by
  have hcodec' : codec = world.codec := by simpa [World.acquired, bufferAcquisitions] using hcodec
  have hengine' : engine = world.engine := by simpa [World.acquired, bufferAcquisitions] using hengine
  rw [hcodec', hengine']
  apply List.Sublist.cons_cons
  apply List.singleton_sublist.mpr
  exact List.mem_append_left _ (engine_mem_releases hdecodes)

/-- Everything is released exactly when all output buffers are freed. -/
theorem allReleased_iff (hworld : world.Lawful sizes mem virtToPhys uvOffset) (hdecodes : world.Decodes)
    (hnodes : (freed.map Grant.node).Nodup) (hsub : freed ⊆ world.grants) :
    AllReleased (world.acquired.map Event.acquire ++ (world.released buffers freed).map Event.release) ↔
      world.grants ⊆ freed := by
  constructor
  · intro hreleased g hg
    have hacquired : .node g.node ∈ world.acquired := by
      simpa [World.acquired, bufferAcquisitions] using ⟨g, hg, rfl⟩
    have hnode := hreleased.mem hacquired
    simp only [World.released, List.mem_cons, reduceCtorEq, List.mem_append, mem_releases_iff,
      and_false, exists_false, node_mem_bufferReleases, false_or] at hnode
    obtain ⟨g', hg', heq⟩ := List.mem_map.mp hnode
    exact List.inj_on_of_nodup_map hworld.granted.nodup (hsub hg') hg heq ▸ hg'
  · intro hall
    apply allReleased_of_nodup
    · exact nodup_released hworld hnodes hsub
    · exact acquired_subset_released hworld hdecodes hall
    · exact fun codec engine => sublist_released hdecodes

end Released

/-- What the loop leaves is released exactly when the codec holds no buffer. -/
theorem main_decoded (hworld : world.Lawful sizes mem virtToPhys uvOffset)
    (hfew : world.grants.length < maxIoBuffers) (hfuel : world.grants.length < fuel)
    (hdecodes : world.Decodes) :
    ∃ events, main sizes mem virtToPhys uvOffset world fuel = some events ∧
      (AllReleased events ↔ AllReturned world.turns) := by
  have hstart := System.tidy_start hworld.granted mem virtToPhys uvOffset
  have htidy := hstart.run hworld.granted hfew (hworld.run hdecodes)
  have hcounted := System.Counted.run hworld.granted hfew hstart rfl (hworld.run hdecodes)
  have hloop := decodeLoop_of_run (hworld.run hdecodes) (hworld.ended hdecodes)
  obtain ⟨freed, hfreed, hnodes, hsub, hall⟩ := htidy.freed hworld.granted hfuel
  refine ⟨_, by rw [main, mainResources_decoded hdecodes hloop hfreed, Option.map_some], ?_⟩
  rw [← hcounted.held_eq_empty_iff, ← hall]
  exact allReleased_iff hworld hdecodes hnodes hsub

end Exits

/-- `main` releases everything when it gets no codec, and otherwise when the control calls
succeed, no process call fails and every buffer comes back from the codec. -/
theorem main_releases_all_iff {oned : Bool} {w h : ℤ} (hw : 0 < w) (hh : 0 < h) {sizes : FrameSizes}
    (hsizes : frameSizes oned w h = some sizes) {mem : Word → OutputBuffer} {virtToPhys : Word → Word}
    {uvOffset : ℤ} {world : World} (hworld : world.Lawful sizes mem virtToPhys uvOffset) {fuel : ℕ}
    (hfuel : world.grants.length < fuel) :
    ∃ events, main sizes mem virtToPhys uvOffset world fuel = some events ∧
      (AllReleased events ↔ world.engine = 0 ∨ world.codec = 0 ∨
        (world.setParams = 0 ∧ world.getBufInfo = 0) ∧ AllReturned world.turns) := by
  have hfew : world.grants.length < maxIoBuffers := by
    have hbounds := ((frameSizes_computed hsizes).numBuffers_bounds hw hh).2
    have hlength := hworld.length
    have hmax : maxIoBuffers = 20 := rfl
    omega
  have hpos : 0 < fuel := by omega
  have hparams := hworld.blocks_nonnull world.params List.mem_cons_self
  by_cases hearly : world.engine = 0 ∨ world.codec = 0
  · obtain ⟨events, hrun, hreleased⟩ := main_early sizes mem virtToPhys uvOffset
      hpos hparams hearly
    exact ⟨events, hrun, iff_of_true hreleased (or_assoc.mp (.inl hearly))⟩
  · obtain ⟨hengine, hcodec⟩ := not_or.mp hearly
    by_cases hcontrol : world.setParams = 0 ∧ world.getBufInfo = 0
    · obtain ⟨events, hrun, hiff⟩ := main_decoded hworld hfew hfuel
        ⟨hengine, hcodec, hcontrol.1, hcontrol.2⟩
      refine ⟨events, hrun, ?_⟩
      rw [hiff, or_iff_right hengine, or_iff_right hcodec, and_iff_right hcontrol]
    · obtain ⟨events, hrun, hkept⟩ := main_refused sizes mem virtToPhys uvOffset
        hpos hengine hcodec hcontrol
      refine ⟨events, hrun, ?_⟩
      rw [or_iff_right hengine, or_iff_right hcodec]
      exact iff_of_false hkept fun h => hcontrol h.1

/-- A world with nineteen buffers. -/
def worldOf (setParams : ℤ) (turns : List Turn) : World where
  engine := 1
  params := 0x10008
  codec := 2
  dynParams := 0x11008
  status := 0x12008
  setParams := setParams
  getBufInfo := 0
  inBufs := 0x13008
  input := 0x90000
  outBufs := 0x14008
  grants := nineteen
  inArgs := 0x15008
  outArgs := 0x16008
  turns := turns

/-- The only turn finds no input, and the codec returns the buffer of the flush. -/
def flushOnly : World := worldOf 0 [turnOf 0 [0x1120] one_fits]

theorem handed_beforeFirst : beforeFirst.handed = 0x1120 := by decide +kernel

theorem run_flushOnly : Run (System.turn smallest) System.Calls beforeFirst flushOnly.turns := by
  have hallowed : beforeFirst.Allowed (turnOf 0 [0x1120] one_fits) :=
    allowed_turnOf _ (by decide +kernel) (List.nodup_singleton _)
      (List.forall_mem_singleton.mpr (handed_beforeFirst ▸ Finset.mem_insert_self _ _))
  exact ⟨⟨hallowed, by decide +kernel⟩, trivial⟩

theorem ended_flushOnly :
    (final (System.turn smallest) beforeFirst flushOnly.turns).decoder.Ended := by decide +kernel

theorem tiler_worldOf (setParams : ℤ) (turns : List Turn) :
    ((worldOf setParams turns).input :: nineteen.map Grant.block).Nodup := by
  have hblocks : ((0x90000 : Word) :: nineteen.map Grant.block).Nodup := by decide +kernel
  exact hblocks

theorem lawful_worldOf {setParams : ℤ} {turns : List Turn}
    (hrun : setParams = 0 → Run (System.turn smallest) System.Calls beforeFirst turns ∧
      (final (System.turn smallest) beforeFirst turns).decoder.Ended) :
    (worldOf setParams turns).Lawful smallest (fun _ => ⟨0, 0, 0, 0⟩) id 14336 where
  granted := granted_nineteen
  length := length_nineteen
  blocks := by simp [worldOf, World.blocks]
  blocks_nonnull := by simp [worldOf, World.blocks]
  tiler := tiler_worldOf setParams turns
  input := by simp [worldOf]
  run := fun hdecodes => (hrun hdecodes.setParams).1
  ended := fun hdecodes => (hrun hdecodes.setParams).2

theorem main_releases_all_iff_flushed : ∃ events,
    main smallest (fun _ => ⟨0, 0, 0, 0⟩) id 14336 flushOnly 20 = some events ∧ AllReleased events := by
  have hlawful : flushOnly.Lawful smallest (fun _ => ⟨0, 0, 0, 0⟩) id 14336 :=
    lawful_worldOf fun _ => ⟨run_flushOnly, ended_flushOnly⟩
  have hfuel : (nineteen.length) < 20 := by decide +kernel
  obtain ⟨events, hrun, hiff⟩ := main_releases_all_iff (by norm_num) (by norm_num)
    frameSizes_smallest hlawful hfuel
  have hreturned : AllReturned flushOnly.turns := by decide +kernel
  exact ⟨events, hrun, hiff.mpr (.inr (.inr ⟨⟨rfl, rfl⟩, hreturned⟩))⟩

/-- The codec refuses the parameters; it is never deleted. -/
theorem main_leaks_codec :
    (worldOf (-1) []).Lawful smallest (fun _ => ⟨0, 0, 0, 0⟩) id 14336 ∧
      ∃ events, main smallest (fun _ => ⟨0, 0, 0, 0⟩) id 14336 (worldOf (-1) []) 20 = some events ∧
        ¬AllReleased events :=
  ⟨lawful_worldOf fun h => absurd h (by decide),
    main_refused _ _ _ _ (by decide) (by simp [worldOf]) (by simp [worldOf]) (by simp [worldOf])⟩

end Libdce.Sample
