import Libdce.Foundation.Allocation
import Libdce.Foundation.GuardedRuns
import Libdce.Remote.Transparency

/-!
# Every access to a header

Both sides look at the headers of `dce_alloc`: the client writes one for a new
block and reads it for every pointer it passes, and `dce_clean` reads it on the
coprocessor. A client runs against a memory manager that may refuse any request,
and the headers looked at are compared with the blocks that are allocated.

## Implementation notes

A block is what `MemMgr_Alloc` was asked for, header included. The coprocessor
sees a block at consecutive addresses of its own. Clients and codecs write into
the payloads of allocated blocks as they like; a call is one step, since none of
its structures may be freed before it returns.
-/

namespace Libdce.Remote

open Foundation.Bytes Foundation.Allocation Foundation.GuardedRuns Host Tracking

namespace Operation

/-- The structures among the arguments. -/
def pointers : Operation → List Word
  | .viddec3Create _ _ params => [params]
  | .viddec3Control _ _ dynParams status => [dynParams, status]
  | .viddec3Process _ inBufs outBufs inArgs outArgs => [inBufs, outBufs, inArgs, outArgs]
  | _ => []

/-- The handler gets the addresses that `virt2ducati` gives, in the same order. -/
theorem structures_decode_fill (pid : Pid) (mem data : Buffer) (op : Operation) :
    (decode (op.fill pid mem data) op.fxn).structures = op.pointers.map (virt2ducati mem) := by
  cases op with
  | engineOpen name ec => rfl
  | engineClose engine => rfl
  | viddec3Create engine name params =>
      simp only [fill, fxn, decode, CeRequest.structures, pointers, fillViddec3Create,
        Buffer.get32_put32, List.map_cons, List.map_nil]
  | viddec3Control codec id dynParams status =>
      simp (disch := decide) only [fill, fxn, decode, CeRequest.structures, pointers,
        fillViddec3Control, Buffer.get32_put32_of_apart, Buffer.get32_put32, List.map_cons,
        List.map_nil]
  | viddec3Process codec inBufs outBufs inArgs outArgs =>
      simp (disch := decide) only [fill, fxn, decode, CeRequest.structures, pointers,
        fillViddec3Process, Buffer.get32_put32_of_apart, Buffer.get32_put32, List.map_cons,
        List.map_nil]
  | viddec3Delete codec => rfl

end Operation

/-- A header is looked at, by the host or by the coprocessor. -/
inductive HeaderAccess where
  | host (h : Word)
  | ducati (h : Word)
  deriving DecidableEq, Repr

/-- Memory and the blocks that `MemMgr_Alloc` returned and that are not freed. -/
structure SharedHeap where
  mem : Buffer
  live : Finset Block

/-- Nothing is allocated. -/
def SharedHeap.zero (mem : Buffer) : SharedHeap := ⟨mem, ∅⟩

/-- A step of the client: `dce_alloc` with the answer of `MemMgr_Alloc`, `dce_free`, a
write to a payload, and a call of one of the six functions, with the worker that
serves it unless the message does not get there. -/
inductive ClientStep (κ : Type*) where
  | dceAlloc (h sz : Word)
  | dceFree (ptr : Word)
  | write (a : ℕ) (v : Byte)
  | call (op : Operation) (pid : Pid) (data : Buffer) (server : Option (Worker κ))

variable {κ : Type*}

/-- The header is that of an allocated block. -/
def HeaderAccess.Hits (virtToPhys : Word → Word) (live : Finset Block) : HeaderAccess → Prop
  | .host h => ∃ b ∈ live, b.ptr = h
  | .ducati h => ∃ b ∈ live, virtToPhys b.ptr = h

instance (virtToPhys : Word → Word) (live : Finset Block) :
    DecidablePred (HeaderAccess.Hits virtToPhys live)
  | .host h => inferInstanceAs (Decidable (∃ b ∈ live, b.ptr = h))
  | .ducati h => inferInstanceAs (Decidable (∃ b ∈ live, virtToPhys b.ptr = h))

/-- The pointer is one that `dce_alloc` returned for an allocated block. -/
def LivePointer (live : Finset Block) (ptr : Word) : Prop := ∃ b ∈ live, h2p b.ptr = ptr

instance (live : Finset Block) : DecidablePred (LivePointer live) := fun ptr =>
  inferInstanceAs (Decidable (∃ b ∈ live, h2p b.ptr = ptr))

namespace SharedHeap

variable (virtToPhys : Word → Word) (ce : CodecEngine κ) (s : SharedHeap)

/-- What each step does. -/
def step : ClientStep κ → SharedHeap
  | .dceAlloc h sz =>
      { mem := (Host.dceAlloc h virtToPhys sz s.mem).2
        live := if h ≠ 0 then insert ⟨h, sz + 8⟩ s.live else s.live }
  | .dceFree ptr => { s with live := s.live.filter fun b => b.ptr ≠ p2h ptr }
  | .write a v => { s with mem := Function.update s.mem a v }
  | .call _ _ _ _ => s

/-- The words that the handler of a call cleans. -/
def cleaned (op : Operation) (pid : Pid) (data : Buffer) (w : Worker κ) : List Word :=
  CeRequest.cleans (rpc ce { w with data := op.fill pid s.mem data, actions := [] } op.fxn).actions

/-- The headers that each step looks at. -/
def accesses : ClientStep κ → List HeaderAccess
  | .dceAlloc h _ => [.host h]
  | .dceFree _ => []
  | .write _ _ => []
  | .call op pid data server =>
      (op.pointers.filter (· ≠ 0)).map (fun ptr => .host (p2h ptr)) ++
        match server with
        | some w => (s.cleaned ce op pid data w).map fun ptr => .ducati (p2h ptr)
        | none => []

/-- When a step may be taken: a block that is granted is apart from the others and
consecutive for the coprocessor, clients use what is allocated, and only
`VIDDEC3_create` may be called with a null pointer. -/
def Legal : ClientStep κ → Prop
  | .dceAlloc h sz => h ≠ 0 →
      Block.Fits ⟨h, sz + 8⟩ ∧ (∀ b ∈ s.live, b.extent.Apart (Block.extent ⟨h, sz + 8⟩)) ∧
        virtToPhys (h2p h) = h2p (virtToPhys h) ∧ virtToPhys (h2p h) ≠ 0
  | .dceFree ptr => LivePointer s.live ptr
  | .write a _ => ∃ b ∈ s.live, b.ptr.toNat + 8 ≤ a ∧ a < b.ptr.toNat + b.size.toNat
  | .call op _ _ _ => ∀ ptr ∈ op.pointers,
      LivePointer s.live ptr ∨ ptr = 0 ∧ op.fxn = .viddec3Create

/-- All headers looked at are those of allocated blocks. -/
def AccessesLive (a : ClientStep κ) : Prop :=
  ∀ x ∈ s.accesses ce a, x.Hits virtToPhys (s.step virtToPhys a).live

instance : ∀ a : ClientStep κ, Decidable (s.Legal virtToPhys a)
  | .dceAlloc h sz => inferInstanceAs (Decidable (h ≠ 0 →
      Block.Fits ⟨h, sz + 8⟩ ∧ (∀ b ∈ s.live, b.extent.Apart (Block.extent ⟨h, sz + 8⟩)) ∧
        virtToPhys (h2p h) = h2p (virtToPhys h) ∧ virtToPhys (h2p h) ≠ 0))
  | .dceFree ptr => inferInstanceAs (Decidable (LivePointer s.live ptr))
  | .write a _ => inferInstanceAs (Decidable
      (∃ b ∈ s.live, b.ptr.toNat + 8 ≤ a ∧ a < b.ptr.toNat + b.size.toNat))
  | .call op _ _ _ => List.decidableBAll
      (fun ptr => LivePointer s.live ptr ∨ ptr = 0 ∧ op.fxn = .viddec3Create) op.pointers

instance (a : ClientStep κ) : Decidable (s.AccessesLive virtToPhys ce a) :=
  inferInstanceAs (Decidable (∀ x ∈ _, _))

end SharedHeap

/-- The size of an allocation leaves room for the header. -/
def ClientStep.Sized : ClientStep κ → Prop
  | .dceAlloc _ sz => sz.toNat + 8 < 2 ^ 32
  | _ => True

/-- An allocation is granted, and a call that is served passes no null pointer. -/
def ClientStep.Served : ClientStep κ → Prop
  | .dceAlloc h _ => h ≠ 0
  | .call op _ _ (some _) => 0 ∉ op.pointers
  | _ => True

/-- What the client and the coprocessor rely on: allocated blocks are apart, have room
for their headers, and the headers are as `dce_alloc` wrote them. -/
structure Intact (virtToPhys : Word → Word) (s : SharedHeap) : Prop where
  fits : ∀ b ∈ s.live, b.Fits
  room : ∀ b ∈ s.live, 8 ≤ b.size.toNat
  apart : ∀ b ∈ s.live, ∀ b' ∈ s.live, b ≠ b' → b.extent.Apart b'.extent
  header : ∀ b ∈ s.live, memHeader s.mem b.ptr = ⟨b.size - 8, virtToPhys (h2p b.ptr)⟩
  mapped : ∀ b ∈ s.live, virtToPhys (h2p b.ptr) = h2p (virtToPhys b.ptr)
  nonzero : ∀ b ∈ s.live, virtToPhys (h2p b.ptr) ≠ 0

namespace Intact

variable {virtToPhys : Word → Word} {ce : CodecEngine κ} {s : SharedHeap} {b : Block}

theorem zero (mem : Buffer) : Intact virtToPhys (.zero mem) := by
  constructor <;> intro b hb <;> exact absurd hb (Finset.notMem_empty b)

/-- A byte of one block that is not in its header is in no header. -/
theorem header_apart (hs : Intact virtToPhys s) (hb : b ∈ s.live) {b' : Block}
    (hb' : b' ∈ s.live) {a : ℕ} (hlo : b.ptr.toNat + 8 ≤ a)
    (hhi : a < b.ptr.toNat + b.size.toNat) : a < b'.ptr.toNat ∨ b'.ptr.toNat + 8 ≤ a := by
  by_cases heq : b = b'
  · exact Or.inr (heq ▸ hlo)
  · have happart := hs.apart b hb b' hb' heq a ⟨(Nat.le_add_right _ 8).trans hlo, hhi⟩
    have hroom := hs.room b' hb'
    simp only [Extent.Holds, Block.extent] at happart
    omega

theorem dceAlloc (hs : Intact virtToPhys s) {h sz : Word} (hh : h ≠ 0)
    (hlegal : s.Legal virtToPhys (.dceAlloc h sz : ClientStep κ))
    (hsz : sz.toNat + 8 < 2 ^ 32) :
    Intact virtToPhys (s.step virtToPhys (.dceAlloc h sz : ClientStep κ)) := by
  obtain ⟨hfits, hfresh, hmapped, hnonzero⟩ := hlegal hh
  have hsize : (sz + 8).toNat = sz.toNat + 8 := by
    rw [BitVec.toNat_add]
    exact Nat.mod_eq_of_lt hsz
  have hend := hfits.2
  simp only [hsize] at hend
  have hlive : (s.step virtToPhys (.dceAlloc h sz : ClientStep κ)).live =
      insert ⟨h, sz + 8⟩ s.live := if_pos hh
  have hkeep : ∀ b ∈ s.live,
      memHeader (Host.dceAlloc h virtToPhys sz s.mem).2 b.ptr = memHeader s.mem b.ptr := by
    intro b hb
    refine memHeader_congr fun a hlo hhi => ?_
    have hroom := hs.room b hb
    have hout := hfresh b hb a ⟨hlo, show a < b.ptr.toNat + b.size.toNat by omega⟩
    simp only [Extent.Holds, Block.extent, hsize] at hout
    exact dceAlloc_apply_of_apart virtToPhys sz s.mem (by omega) (by omega)
  have hnew : memHeader (Host.dceAlloc h virtToPhys sz s.mem).2 h = ⟨sz, virtToPhys (h2p h)⟩ := by
    have hheader := memHeader_dceAlloc virtToPhys sz s.mem (show h.toNat + 8 < 2 ^ 32 by omega)
    simpa only [Host.dceAlloc, p2h_h2p] using hheader
  constructor <;> rw [hlive]
  · exact Finset.forall_mem_insert _ _ _ |>.mpr ⟨hfits, hs.fits⟩
  · exact Finset.forall_mem_insert _ _ _ |>.mpr ⟨by simp only [hsize]; omega, hs.room⟩
  · intro b hb b' hb' hne
    rcases Finset.mem_insert.mp hb with rfl | hb <;> rcases Finset.mem_insert.mp hb' with rfl | hb'
    · exact absurd rfl hne
    · exact (hfresh b' hb').symm
    · exact hfresh b hb
    · exact hs.apart b hb b' hb' hne
  · refine Finset.forall_mem_insert _ _ _ |>.mpr ⟨?_, ?_⟩
    · exact hnew.trans (by rw [BitVec.add_sub_cancel])
    · exact fun b hb => (hkeep b hb).trans (hs.header b hb)
  · exact Finset.forall_mem_insert _ _ _ |>.mpr ⟨hmapped, hs.mapped⟩
  · exact Finset.forall_mem_insert _ _ _ |>.mpr ⟨hnonzero, hs.nonzero⟩

theorem dceFree (hs : Intact virtToPhys s) (ptr : Word) :
    Intact virtToPhys (s.step virtToPhys (.dceFree ptr : ClientStep κ)) := by
  have hsub : (s.step virtToPhys (.dceFree ptr : ClientStep κ)).live ⊆ s.live :=
    Finset.filter_subset _ _
  exact ⟨fun b hb => hs.fits b (hsub hb), fun b hb => hs.room b (hsub hb),
    fun b hb b' hb' => hs.apart b (hsub hb) b' (hsub hb'), fun b hb => hs.header b (hsub hb),
    fun b hb => hs.mapped b (hsub hb), fun b hb => hs.nonzero b (hsub hb)⟩

theorem write (hs : Intact virtToPhys s) {a : ℕ} {v : Byte}
    (hlegal : s.Legal virtToPhys (.write a v : ClientStep κ)) :
    Intact virtToPhys (s.step virtToPhys (.write a v : ClientStep κ)) := by
  obtain ⟨b, hb, hlo, hhi⟩ := hlegal
  refine ⟨hs.fits, hs.room, hs.apart, ?_, hs.mapped, hs.nonzero⟩
  intro b' hb'
  refine (memHeader_congr fun k hk hk' => ?_).trans (hs.header b' hb')
  have hout := hs.header_apart hb hb' hlo hhi
  exact Function.update_of_ne (by omega) _ _

/-- A granted allocation of a proper size, a release and a write keep the headers. -/
theorem step (hs : Intact virtToPhys s) {a : ClientStep κ} (hlegal : s.Legal virtToPhys a)
    (hsized : a.Sized) (hserved : a.Served) : Intact virtToPhys (s.step virtToPhys a) := by
  cases a with
  | dceAlloc h sz => exact hs.dceAlloc hserved hlegal hsized
  | dceFree ptr => exact hs.dceFree ptr
  | write a v => exact hs.write hlegal
  | call op pid data server => exact hs

/-- The pointers of allocated blocks are not null. -/
theorem h2p_ne_zero (hs : Intact virtToPhys s) (hb : b ∈ s.live) : h2p b.ptr ≠ 0 := by
  have hend := (hs.fits b hb).2
  have hroom := hs.room b hb
  rw [Ne, Word.eq_zero_iff, h2p_toNat (by omega)]
  omega

/-- Address zero stands for no block of the coprocessor. -/
theorem virtToPhys_ne (hs : Intact virtToPhys s) (hb : b ∈ s.live) : virtToPhys b.ptr ≠ p2h 0 := by
  intro heq
  apply hs.nonzero b hb
  rw [hs.mapped b hb, heq, h2p_p2h]

/-- What is sent for a live pointer is the coprocessor's address of the block. -/
theorem virt2ducati_h2p (hs : Intact virtToPhys s) (hb : b ∈ s.live) :
    virt2ducati s.mem (h2p b.ptr) = h2p (virtToPhys b.ptr) := by
  rw [virt2ducati_of_ne_zero _ (hs.h2p_ne_zero hb), p2h_h2p, hs.header b hb]
  exact hs.mapped b hb

/-- `dce_clean` of what is sent for a pointer looks at a live header exactly when the
pointer is not null. -/
theorem clean_hits_iff (hs : Intact virtToPhys s) {ptr : Word}
    (hptr : LivePointer s.live ptr ∨ ptr = 0) :
    HeaderAccess.Hits virtToPhys s.live (.ducati (p2h (virt2ducati s.mem ptr))) ↔ ptr ≠ 0 := by
  rcases hptr with ⟨b, hb, rfl⟩ | rfl
  · refine iff_of_true ⟨b, hb, ?_⟩ (hs.h2p_ne_zero hb)
    rw [hs.virt2ducati_h2p hb, p2h_h2p]
  · refine iff_of_false ?_ (fun hne => hne rfl)
    rintro ⟨b, hb, heq⟩
    exact hs.virtToPhys_ne hb heq

end Intact

namespace SharedHeap

variable {virtToPhys : Word → Word} {ce : CodecEngine κ} {s : SharedHeap}

/-- A handler cleans what the stub sent. -/
theorem cleaned_eq (op : Operation) (pid : Pid) (data : Buffer) (w : Worker κ) :
    s.cleaned ce op pid data w = op.pointers.map (virt2ducati s.mem) := by
  rw [cleaned, rpc_eq]
  simp only [List.nil_append, CeRequest.cleans_actions, Operation.structures_decode_fill]

/-- `dce_alloc` writes to a live header exactly when it was granted a block. -/
theorem accessesLive_dceAlloc_iff (hs : Intact virtToPhys s) (h sz : Word) :
    s.AccessesLive virtToPhys ce (.dceAlloc h sz) ↔ h ≠ 0 := by
  simp only [AccessesLive, accesses, List.mem_singleton, forall_eq, HeaderAccess.Hits, step]
  by_cases hh : h = 0
  · refine iff_of_false ?_ (fun hne => hne hh)
    rintro ⟨b, hb, heq⟩
    rw [if_neg (fun hne => hne hh)] at hb
    exact (hs.fits b hb).1 (heq.trans hh)
  · refine iff_of_true ⟨⟨h, sz + 8⟩, ?_, rfl⟩ hh
    rw [if_pos hh]
    exact Finset.mem_insert_self _ _

/-- A stub looks at the headers of the pointers that are not null. -/
theorem host_accesses_live {ptrs : List Word}
    (hptrs : ∀ ptr ∈ ptrs, LivePointer s.live ptr ∨ ptr = 0) {x : HeaderAccess}
    (hx : x ∈ (ptrs.filter (· ≠ 0)).map fun ptr => HeaderAccess.host (p2h ptr)) :
    x.Hits virtToPhys s.live := by
  obtain ⟨ptr, hmem, rfl⟩ := List.mem_map.mp hx
  obtain ⟨hmem, hne⟩ := List.mem_filter.mp hmem
  obtain ⟨b, hb, rfl⟩ := (hptrs ptr hmem).resolve_right (of_decide_eq_true hne)
  exact ⟨b, hb, (p2h_h2p b.ptr).symm⟩

/-- Whether the headers that one step looks at are live. -/
theorem accessesLive_iff (hs : Intact virtToPhys s) {a : ClientStep κ}
    (hlegal : s.Legal virtToPhys a) : s.AccessesLive virtToPhys ce a ↔ a.Served := by
  cases a with
  | dceAlloc h sz => exact accessesLive_dceAlloc_iff hs h sz
  | dceFree ptr => exact iff_of_true (fun x hx => absurd hx List.not_mem_nil) trivial
  | write a v => exact iff_of_true (fun x hx => absurd hx List.not_mem_nil) trivial
  | call op pid data server =>
      have hptrs : ∀ ptr ∈ op.pointers, LivePointer s.live ptr ∨ ptr = 0 :=
        fun ptr hmem => (hlegal ptr hmem).imp_right And.left
      cases server with
      | none =>
          refine iff_of_true ?_ trivial
          intro x hx
          simp only [accesses, List.append_nil] at hx
          exact host_accesses_live hptrs hx
      | some w =>
          constructor
          · intro hall hzero
            have hmem : .ducati (p2h (virt2ducati s.mem 0)) ∈
                (s.cleaned ce op pid data w).map fun ptr => HeaderAccess.ducati (p2h ptr) := by
              rw [cleaned_eq, List.map_map]
              exact List.mem_map_of_mem hzero
            exact (hs.clean_hits_iff (Or.inr rfl)).mp (hall _ (List.mem_append_right _ hmem)) rfl
          · intro hne x hx
            rcases List.mem_append.mp hx with hx | hx
            · exact host_accesses_live hptrs hx
            · simp only [cleaned_eq, List.map_map] at hx
              obtain ⟨ptr, hmem, rfl⟩ := List.mem_map.mp hx
              exact (hs.clean_hits_iff (hptrs ptr hmem)).mpr fun heq => hne (heq ▸ hmem)

/-- As long as every allocation is granted, with a proper size, and no served call
passes a null pointer, all headers looked at are those of allocated blocks; and in a
run whose sizes are proper this is the only way. -/
theorem accesses_live_iff {mem : Buffer} {as : List (ClientStep κ)}
    (run : Run (step virtToPhys) (Legal virtToPhys) (.zero mem) as) :
    (Run (step virtToPhys) (fun _ a => a.Sized ∧ a.Served) (.zero mem) as →
      Run (step virtToPhys) (AccessesLive virtToPhys ce) (.zero mem) as) ∧
    (Run (step virtToPhys) (fun _ a => a.Sized) (.zero mem) as →
      Run (step virtToPhys) (AccessesLive virtToPhys ce) (.zero mem) as →
      Run (step virtToPhys) (fun _ a => a.Served) (.zero mem) as) := by
  have hiff : Run (step virtToPhys) (fun _ a => a.Sized) (.zero mem) as →
      (Run (step virtToPhys) (AccessesLive virtToPhys ce) (.zero mem) as ↔
        Run (step virtToPhys) (fun _ a => a.Served) (.zero mem) as) := by
    intro hsized
    refine Run.iff_of_invariant (I := Intact virtToPhys) ((run_and _ _).mpr ⟨run, hsized⟩)
      (Intact.zero mem) ?_ ?_
    · exact fun s a hs hok hserved => hs.step hok.1 hok.2 hserved
    · exact fun s a hs hok => accessesLive_iff hs hok.1
  constructor
  · intro h
    obtain ⟨hsized, hserved⟩ := (run_and _ _).mp h
    exact (hiff hsized).mpr hserved
  · exact fun hsized => (hiff hsized).mp

/-- A client that gets two blocks, creates a codec with one of them and controls it
with both. -/
def twoBlocks : List (ClientStep Unit) :=
  [.dceAlloc 0x1000 100, .dceAlloc 0x2000 40,
    .call (.viddec3Create 5 ⟨[0x68], by decide⟩ 0x1008) 7 (fun _ => 0)
      (some ⟨⟨Clients.zero, (), []⟩, fun _ => 0, 0⟩),
    .write 0x1008 1,
    .call (.viddec3Control 42 0 0x1008 0x2008) 7 (fun _ => 0)
      (some ⟨⟨Clients.zero, (), []⟩, fun _ => 0, 0⟩),
    .dceFree 0x1008]

/-- Codec Engine gives the codec 42. -/
def answers42 : CodecEngine Unit := fun _ _ u => (⟨42, 0⟩, u)

theorem accesses_live_iff_twoBlocks :
    Run (step (· + 0x10000)) (AccessesLive (· + 0x10000) answers42) (.zero fun _ => 0) twoBlocks := by
  have run : Run (step (· + 0x10000)) (Legal (· + 0x10000)) (.zero fun _ => 0) twoBlocks := by
    decide +kernel
  refine (accesses_live_iff run).1 ?_
  simp only [twoBlocks, run_cons, run_nil, ClientStep.Sized, ClientStep.Served]
  decide +kernel

/-- A refused allocation is written to all the same, and what is returned for it is
not null; the handler of `VIDDEC3_create` looks for a header in front of address zero
when there are no parameters. -/
theorem accesses_not_live :
    (SharedHeap.zero fun _ => 0).Legal (· + 0x10000) (.dceAlloc 0 100 : ClientStep Unit) ∧
    ¬(SharedHeap.zero fun _ => 0).AccessesLive (· + 0x10000) answers42 (.dceAlloc 0 100) ∧
    (dceAlloc 0 (· + 0x10000) 100 fun _ => 0).1 = 8 ∧
    let create : ClientStep Unit := .call (.viddec3Create 5 ⟨[0x68], by decide⟩ 0) 7 (fun _ => 0)
      (some ⟨⟨Clients.zero, (), []⟩, fun _ => 0, 0⟩)
    (SharedHeap.zero fun _ => 0).Legal (· + 0x10000) create ∧
      (SharedHeap.zero fun _ => 0).accesses answers42 create = [.ducati 0xfffffff8] ∧
      ¬(SharedHeap.zero fun _ => 0).AccessesLive (· + 0x10000) answers42 create := by
  decide +kernel

end SharedHeap

end Libdce.Remote
