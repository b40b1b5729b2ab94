import Libdce.Coherence.SharedBlocks

/-!
# The cached machine simulates the flat one

As long as the host leaves the structures of a call alone until the call has
returned, the coprocessor's cache cannot be told from having none: host and
codec read what was written last, and `dce_clean` reads the size of the block it
cleans. What is left in the cache when a handler returns belongs to the calls
that are still being executed.

## Implementation notes

The flat state that a cached state stands for has the view of the cache as its
memory. The invariant follows the lines: each line in the cache belongs to a
structure that its handler has still to clean.
-/

namespace Libdce.Coherence

open Foundation.Bytes Foundation.WriteBackCache Foundation.GuardedRuns Host Remote

variable {L : Nat} [NeZero L]

namespace State

/-- The flat state that a cached state stands for. -/
def flatten (s : State (Cache L Byte)) : State Buffer := ⟨s.mem.view, s.blocks, s.calls⟩

end State

/-- A call cleans its own structures, and all of them after the codec is done. -/
structure Call.Ordered (c : Call) : Prop where
  own : ∀ p ∈ c.pending, p ∈ c.blocks.map Block.ptr
  all : ∀ env req rest, .invoke env req :: rest <:+ c.todo →
    CeRequest.cleans rest = c.blocks.map Block.ptr

namespace Call.Ordered

variable {c : Call}

theorem begin (pid : Pid) (req : CeRequest) (reply : CeReply) {blocks : List Block}
    (h : req.structures = blocks.map Block.ptr) : Ordered ⟨blocks, req.actions pid reply⟩ where
  own p hp := by
    rwa [pending, CeRequest.cleans_actions, h] at hp
  all env req' rest hsuffix := by
    rw [CeRequest.cleans_of_invoke_first hsuffix, h]

theorem next (hc : c.Ordered) : c.next.Ordered where
  own p hp := hc.own p (pending_next_subset c hp)
  all env req rest h := hc.all env req rest (h.trans (List.tail_suffix _))

/-- While the codec works everything has still to be cleaned. -/
theorem mem_pending_of_decoding (hc : c.Ordered) (hdecoding : c.Decoding) {b : Block}
    (hb : b ∈ c.blocks) : b.ptr ∈ c.pending := by
  obtain ⟨env, req, rest, htodo⟩ := hdecoding
  have hall := hc.all env req rest (by rw [htodo])
  rw [pending, htodo]
  exact hall ▸ List.mem_map_of_mem hb

end Call.Ordered

namespace State

/-- The invariant: blocks keep apart and have their headers, calls have their
blocks to themselves, and each line in the cache is one that the handler of a
call has still to clean. -/
structure Coherent (s : State (Cache L Byte)) : Prop where
  sound : s.mem.Sound
  placed : ∀ b ∈ s.blocks, b.Placed L
  apart : ∀ b ∈ s.blocks, ∀ b' ∈ s.blocks, b ≠ b' → b.Apart L b'
  headers : ∀ b ∈ s.blocks, memHeader s.mem.view (p2h b.ptr) = ⟨b.size, b.ptr⟩
  live : ∀ c ∈ s.calls, ∀ b ∈ c.blocks, b ∈ s.blocks
  exclusive : s.calls.Pairwise fun c c' => ∀ b ∈ c.blocks, b ∉ c'.blocks
  ordered : ∀ c ∈ s.calls, c.Ordered
  cached : ∀ l, s.mem.Cached l → ∃ c ∈ s.calls, ∃ b ∈ c.blocks, b.ptr ∈ c.pending ∧ b.OnLine L l

namespace Coherent

variable {s : State (Cache L Byte)} {a : Action} {b : Block} {c : Call}

theorem zero (mem : Buffer) : Coherent (State.zero (Cache.cold mem) : State (Cache L Byte)) where
  sound := Cache.Sound.cold mem
  placed := fun _ hb => absurd hb List.not_mem_nil
  apart := fun _ hb => absurd hb List.not_mem_nil
  headers := fun _ hb => absurd hb List.not_mem_nil
  live := fun _ hc => absurd hc List.not_mem_nil
  exclusive := List.Pairwise.nil
  ordered := fun _ hc => absurd hc List.not_mem_nil
  cached := fun l hl => absurd hl (Cache.not_cached_cold mem l)

/-- A line that is apart from all blocks is not in the cache. -/
theorem not_cached_of_apart (hs : Coherent s) (h : ∀ b' ∈ s.blocks, b.Apart L b') {l : Nat}
    (hl : b.OnLine L l) : ¬s.mem.Cached l := by
  intro hcached
  obtain ⟨c, hc, b', hb', _, hl'⟩ := hs.cached l hcached
  exact (h b' (hs.live c hc b' hb')).not_onLine hl hl'

/-- Neither is a line of a block that no call has. -/
theorem not_cached_of_unused (hs : Coherent s) (hb : b ∈ s.blocks)
    (h : ∀ c ∈ s.calls, b ∉ c.blocks) {l : Nat} (hl : b.OnLine L l) : ¬s.mem.Cached l := by
  intro hcached
  obtain ⟨c, hc, b', hb', _, hl'⟩ := hs.cached l hcached
  have hne : b ≠ b' := fun heq => h c hc (heq ▸ hb')
  exact (hs.apart b hb b' (hs.live c hc b' hb') hne).not_onLine hl hl'

/-- The host finds nothing of a byte in the cache while no call has it. -/
theorem not_cached_of_returned (hs : Coherent s) {a : Nat} (hheld : ∃ b ∈ s.blocks, b.Holds a)
    (hreturned : s.Returned a) : ¬s.mem.Cached (a / L) := by
  obtain ⟨b, hb, ha⟩ := hheld
  exact hs.not_cached_of_unused hb (fun c hc hmem => hreturned c hc b hmem ha)
    ((hs.placed b hb).onLine_of_holds ha)

/-- Allocated blocks have different addresses. -/
theorem eq_of_ptr_eq (hs : Coherent s) {b' : Block} (hb : b ∈ s.blocks) (hb' : b' ∈ s.blocks)
    (h : b.ptr = b'.ptr) : b = b' := by
  by_contra hne
  have hl : b'.OnLine L (b.firstLine L) := by
    rw [Block.firstLine, h]
    exact (hs.placed b' hb').onLine_firstLine
  exact (hs.apart b hb b' hb' hne).not_onLine (hs.placed b hb).onLine_firstLine hl

/-- For blocks that no call has the stub sends their own addresses. -/
theorem virt2ducati_eq (hs : Coherent s) (hb : b ∈ s.blocks) (h : ∀ c ∈ s.calls, b ∉ c.blocks) :
    virt2ducati s.mem.memory b.ptr = b.ptr := by
  have hplaced := hs.placed b hb
  have hptr : b.ptr ≠ 0 := by
    have := hplaced.header
    rintro hzero
    rw [hzero] at this
    exact absurd this (by decide)
  have hmem : memHeader s.mem.memory (p2h b.ptr) = memHeader s.mem.view (p2h b.ptr) := by
    apply memHeader_congr
    intro k hlo hhi
    obtain ⟨i, rfl⟩ := Nat.exists_eq_add_of_le hlo
    refine (Cache.view_of_not_cached (hs.not_cached_of_unused hb h ?_)).symm
    rw [hplaced.header_div (by omega)]
    exact hplaced.onLine_firstLine
  rw [virt2ducati_of_ne_zero _ hptr, hmem, hs.headers b hb]

theorem structures_eq (hs : Coherent s) {req : CeRequest} {blocks : List Block}
    (hblocks : ∀ b ∈ blocks, b ∈ s.blocks ∧ ∀ c ∈ s.calls, b ∉ c.blocks)
    (hwords : req.structures = blocks.map fun b => virt2ducati s.mem.memory b.ptr) :
    req.structures = blocks.map Block.ptr := by
  rw [hwords]
  exact List.map_congr_left fun b hb => hs.virt2ducati_eq (hblocks b hb).1 (hblocks b hb).2

/-- What `dce_clean` does to a structure of a call. -/
theorem dceClean_eq (hs : Coherent s) (hc : c ∈ s.calls) (hb : b ∈ c.blocks) :
    (Machine.cached L).dceClean s.mem b.ptr =
      (b.size, (s.mem.load (b.firstLine L)).wbInv b.ptr.toNat b.size.toNat) := by
  have hlive := hs.live c hc b hb
  exact Machine.dceClean_cached (hs.placed b hlive) s.mem (by rw [hs.headers b hlive])

/-- The block that the next action of a handler cleans. -/
theorem exists_block (hs : Coherent s) (hc : c ∈ s.calls) {ptr : Word} {rest : List Remote.Action}
    (htodo : c.todo = .clean ptr :: rest) : ∃ b ∈ c.blocks, b.ptr = ptr := by
  have hmem : ptr ∈ c.pending := by
    rw [Call.pending, htodo]
    exact List.mem_cons_self
  simpa using (hs.ordered c hc).own ptr hmem

/-- Allocating a block leaves alone what the cache has lines of. -/
theorem dceAlloc_apply_of_cached (hs : Coherent s) (hb : b.Placed L)
    (hapart : ∀ b' ∈ s.blocks, b.Apart L b') (mem : Buffer) {a : Nat}
    (hcached : s.mem.Cached (a / L)) :
    (Host.dceAlloc (p2h b.ptr) id b.size mem).2 a = mem a := by
  apply dceAlloc_apply_of_apart id b.size mem hb.header_fits
  by_contra ha
  have := hb.p2h_toNat
  have := hb.header
  exact hs.not_cached_of_apart hapart (Block.onLine (by omega) (by omega)) hcached

/-- Allocating a block looks the same through the cache. -/
theorem view_dceAlloc (hs : Coherent s) (hb : b.Placed L) (hapart : ∀ b' ∈ s.blocks, b.Apart L b') :
    (s.mem.store (Host.dceAlloc (p2h b.ptr) id b.size s.mem.memory).2).view =
      (Host.dceAlloc (p2h b.ptr) id b.size s.mem.view).2 := by
  funext a
  rw [Cache.view_store]
  split
  · next hcached => rw [hs.dceAlloc_apply_of_cached hb hapart _ hcached]
  · next hcached =>
      by_cases ha : (p2h b.ptr).toNat ≤ a ∧ a < (p2h b.ptr).toNat + 8 + b.size.toNat
      · exact dceAlloc_congr id b.size _ _ hb.header_fits ha.1 ha.2
      · rw [dceAlloc_apply_of_apart id b.size _ hb.header_fits (by omega),
          dceAlloc_apply_of_apart id b.size _ hb.header_fits (by omega),
          Cache.view_of_not_cached hcached]

/-- The next action of a handler does not change what the coprocessor sees. -/
theorem view_memAfter (hs : Coherent s) (hc : c ∈ s.calls) :
    (s.memAfter (Machine.cached L) c.todo).view = s.mem.view := by
  unfold memAfter
  split
  · next ptr rest htodo =>
      obtain ⟨b, hb, rfl⟩ := hs.exists_block hc htodo
      rw [hs.dceClean_eq hc hb, (hs.sound.load _).view_wbInv, Cache.view_load]
  · rfl

/-- The cached step is the flat step. -/
theorem flatten_step (hs : Coherent s) (hlegal : s.Legal (Machine.cached L) L a)
    (hwaits : s.HostWaits a) :
    (s.step (Machine.cached L) a).flatten = s.flatten.step Machine.flat a := by
  cases a with
  | dceAlloc b =>
      exact congrArg (State.mk · (b :: s.blocks) s.calls) (hs.view_dceAlloc hlegal.1 hlegal.2)
  | dceFree b => rfl
  | hostWrite a v =>
      have hcached := hs.not_cached_of_returned hlegal hwaits
      exact congrArg (State.mk · s.blocks s.calls) (Cache.view_store_update hcached v)
  | hostRead a => rfl
  | begin pid req reply blocks => rfl
  | codecRead c a => exact congrArg (State.mk · s.blocks s.calls) (Cache.view_load _ _)
  | codecWrite c a v => exact congrArg (State.mk · s.blocks s.calls) (Cache.view_write _ _ _)
  | advance c =>
      simp only [step, flatten, hs.view_memAfter hlegal.1, memAfter_flat]
  | ret c => rfl
  | evict l => exact congrArg (State.mk · s.blocks s.calls) (hs.sound.view_flush (· = l))

/-- `dce_clean` reads the size of the block. -/
theorem observe_clean (hs : Coherent s) (hc : c ∈ s.calls) (hb : b ∈ c.blocks)
    {rest : List Remote.Action} (htodo : c.todo = .clean b.ptr :: rest) :
    s.observe (Machine.cached L) (.advance c) = some (.size b.size) := by
  simp only [observe, htodo, hs.dceClean_eq hc hb]

/-- What is read through the cache is what is in flat memory. -/
theorem observe_flatten (hs : Coherent s) (hlegal : s.Legal (Machine.cached L) L a)
    (hsettled : s.Settled a) :
    s.observe (Machine.cached L) a = s.flatten.observe Machine.flat a := by
  cases a with
  | hostRead a =>
      have hview := Cache.view_of_not_cached (hs.not_cached_of_returned hlegal hsettled)
      exact congrArg (fun v => some (Observation.byte v)) hview.symm
  | advance c =>
      cases htodo : c.todo with
      | nil => simp only [observe, htodo]
      | cons act rest =>
          cases act with
          | clean ptr =>
              obtain ⟨b, hb, rfl⟩ := hs.exists_block hlegal.1 htodo
              rw [hs.observe_clean hlegal.1 hb htodo]
              simp only [observe, htodo, Machine.dceClean_flat, flatten,
                hs.headers b (hs.live c hlegal.1 b hb)]
          | _ => simp only [observe, htodo]
  | dceAlloc b => rfl
  | dceFree b => rfl
  | hostWrite a v => rfl
  | begin pid req reply blocks => rfl
  | codecRead c a => rfl
  | codecWrite c a v => rfl
  | ret c => rfl
  | evict l => rfl

theorem sound_step (hs : Coherent s) (hlegal : s.Legal (Machine.cached L) L a)
    (hwaits : s.HostWaits a) : (s.step (Machine.cached L) a).mem.Sound := by
  cases a with
  | dceAlloc b =>
      exact hs.sound.store fun a hcached =>
        hs.dceAlloc_apply_of_cached hlegal.1 hlegal.2 _ hcached
  | hostWrite a v =>
      apply hs.sound.store
      intro a' hcached
      apply Function.update_of_ne
      rintro rfl
      exact hs.not_cached_of_returned hlegal hwaits hcached
  | codecRead c a => exact hs.sound.load _
  | codecWrite c a v => exact hs.sound.write a v
  | advance c =>
      simp only [step, memAfter]
      split
      · next ptr rest htodo =>
          obtain ⟨b, hb, rfl⟩ := hs.exists_block hlegal.1 htodo
          rw [hs.dceClean_eq hlegal.1 hb]
          exact (hs.sound.load _).wbInv _ _
      · exact hs.sound
  | evict l => exact hs.sound.flush (· = l)
  | dceFree b => exact hs.sound
  | hostRead a => exact hs.sound
  | begin pid req reply blocks => exact hs.sound
  | ret c => exact hs.sound

/-- No header has a byte that a client asked for. -/
theorem header_ne_of_holds (hs : Coherent s) {b' : Block} (hb : b ∈ s.blocks) (hb' : b' ∈ s.blocks)
    {a : Nat} (ha : b'.Holds a) :
    ∀ k, (p2h b.ptr).toNat ≤ k → k < (p2h b.ptr).toNat + 8 → k ≠ a := by
  rintro k hlo hhi rfl
  have hp2h := (hs.placed b hb).p2h_toNat
  have hp2h' := (hs.placed b' hb').p2h_toNat
  have hheader := (hs.placed b hb).header
  unfold Block.Holds at ha
  by_cases heq : b' = b
  · subst heq
    omega
  · have := (hs.apart b' hb' b hb heq).not_mem (a := k) (by omega) (by omega)
    omega

/-- Writing what a client asked for leaves all headers alone. -/
theorem headers_update (hs : Coherent s) {a : Nat} (v : Byte) (ha : ∃ b' ∈ s.blocks, b'.Holds a) :
    ∀ b ∈ s.blocks, memHeader (Function.update s.mem.view a v) (p2h b.ptr) = ⟨b.size, b.ptr⟩ := by
  intro b hb
  obtain ⟨b', hb', ha⟩ := ha
  rw [← hs.headers b hb]
  apply memHeader_congr
  intro k hlo hhi
  exact Function.update_of_ne (hs.header_ne_of_holds hb hb' ha k hlo hhi) _ _

/-- A new block has its header, and all others keep theirs. -/
theorem headers_dceAlloc (hs : Coherent s) (hb : b.Placed L) (hapart : ∀ b' ∈ s.blocks, b.Apart L b') :
    ∀ b' ∈ b :: s.blocks,
      memHeader (Host.dceAlloc (p2h b.ptr) id b.size s.mem.view).2 (p2h b'.ptr) =
        ⟨b'.size, b'.ptr⟩ := by
  intro b' hb'
  rcases List.mem_cons.mp hb' with rfl | hb'
  · have hnew := memHeader_dceAlloc id b'.size s.mem.view hb.header_fits
    rwa [show (Host.dceAlloc (p2h b'.ptr) id b'.size s.mem.view).1 = b'.ptr from h2p_p2h _,
      h2p_p2h] at hnew
  · rw [← hs.headers b' hb']
    apply memHeader_congr
    intro k hlo hhi
    have := hb.p2h_toNat
    have := hb.header
    have := (hs.placed b' hb').p2h_toNat
    have := (hs.placed b' hb').header
    have := (hapart b' hb').symm.not_mem (a := k) hlo (by omega)
    exact dceAlloc_apply_of_apart id b.size _ hb.header_fits (by omega)

theorem headers_step (hs : Coherent s) (hlegal : s.Legal (Machine.cached L) L a)
    (hwaits : s.HostWaits a) :
    ∀ b ∈ (s.step (Machine.cached L) a).blocks,
      memHeader (s.step (Machine.cached L) a).mem.view (p2h b.ptr) = ⟨b.size, b.ptr⟩ := by
  have hview : (s.step (Machine.cached L) a).mem.view = (s.flatten.step Machine.flat a).mem :=
    congrArg State.mem (hs.flatten_step hlegal hwaits)
  rw [hview]
  cases a with
  | dceAlloc b => exact hs.headers_dceAlloc hlegal.1 hlegal.2
  | dceFree b => exact fun b' hb' => hs.headers b' (List.mem_of_mem_erase hb')
  | hostWrite a v => exact hs.headers_update v hlegal
  | codecWrite c a v =>
      obtain ⟨b, hb, ha⟩ := hlegal.2.2
      exact hs.headers_update v ⟨b, hs.live c hlegal.1 b hb, ha⟩
  | advance c =>
      simp only [step, memAfter_flat]
      exact hs.headers
  | hostRead a => exact hs.headers
  | begin pid req reply blocks => exact hs.headers
  | codecRead c a => exact hs.headers
  | ret c => exact hs.headers
  | evict l => exact hs.headers

theorem placed_step (hs : Coherent s) (hlegal : s.Legal (Machine.cached L) L a) :
    ∀ b ∈ (s.step (Machine.cached L) a).blocks, b.Placed L := by
  cases a with
  | dceAlloc b => exact List.forall_mem_cons.mpr ⟨hlegal.1, hs.placed⟩
  | dceFree b => exact fun b' hb' => hs.placed b' (List.mem_of_mem_erase hb')
  | _ => exact hs.placed

theorem apart_step (hs : Coherent s) (hlegal : s.Legal (Machine.cached L) L a) :
    ∀ b ∈ (s.step (Machine.cached L) a).blocks, ∀ b' ∈ (s.step (Machine.cached L) a).blocks,
      b ≠ b' → b.Apart L b' := by
  cases a with
  | dceAlloc b =>
      intro b₁ hb₁ b₂ hb₂ hne
      rcases List.mem_cons.mp hb₁ with rfl | hold₁
      · rcases List.mem_cons.mp hb₂ with rfl | hold₂
        · exact absurd rfl hne
        · exact hlegal.2 b₂ hold₂
      · rcases List.mem_cons.mp hb₂ with rfl | hold₂
        · exact (hlegal.2 b₁ hold₁).symm
        · exact hs.apart b₁ hold₁ b₂ hold₂ hne
  | dceFree b =>
      exact fun b₁ hb₁ b₂ hb₂ =>
        hs.apart b₁ (List.mem_of_mem_erase hb₁) b₂ (List.mem_of_mem_erase hb₂)
  | _ => exact hs.apart

theorem live_step (hs : Coherent s) (hlegal : s.Legal (Machine.cached L) L a)
    (hwaits : s.HostWaits a) :
    ∀ c ∈ (s.step (Machine.cached L) a).calls, ∀ b ∈ c.blocks,
      b ∈ (s.step (Machine.cached L) a).blocks := by
  cases a with
  | dceAlloc b => exact fun c hc b' hb' => List.mem_cons_of_mem _ (hs.live c hc b' hb')
  | dceFree b =>
      intro c hc b' hb'
      have hne : b' ≠ b := fun heq => hwaits c hc (heq ▸ hb')
      exact (List.mem_erase_of_ne hne).mpr (hs.live c hc b' hb')
  | begin pid req reply blocks =>
      intro c hc b hb
      rcases List.mem_cons.mp hc with rfl | hc
      · exact (hlegal.1 b hb).1
      · exact hs.live c hc b hb
  | advance c =>
      intro c' hc' b hb
      rcases List.mem_cons.mp hc' with rfl | hc'
      · exact hs.live c hlegal.1 b hb
      · exact hs.live c' (List.mem_of_mem_erase hc') b hb
  | ret c => exact fun c' hc' => hs.live c' (List.mem_of_mem_erase hc')
  | _ => exact hs.live

theorem exclusive_step (hs : Coherent s) (hlegal : s.Legal (Machine.cached L) L a) :
    (s.step (Machine.cached L) a).calls.Pairwise fun c c' => ∀ b ∈ c.blocks, b ∉ c'.blocks := by
  cases a with
  | begin pid req reply blocks =>
      exact List.pairwise_cons.mpr ⟨fun c hc b hb => (hlegal.1 b hb).2 c hc, hs.exclusive⟩
  | advance c =>
      have hperm := hs.exclusive.perm (List.perm_cons_erase hlegal.1)
        fun h b hb hb' => h b hb' hb
      exact List.pairwise_cons.mpr (List.pairwise_cons.mp hperm)
  | ret c => exact hs.exclusive.sublist List.erase_sublist
  | _ => exact hs.exclusive

theorem ordered_step (hs : Coherent s) (hlegal : s.Legal (Machine.cached L) L a) :
    ∀ c ∈ (s.step (Machine.cached L) a).calls, c.Ordered := by
  cases a with
  | begin pid req reply blocks =>
      have hwords := hs.structures_eq hlegal.1 hlegal.2
      exact List.forall_mem_cons.mpr ⟨Call.Ordered.begin pid req reply hwords, hs.ordered⟩
  | advance c =>
      exact List.forall_mem_cons.mpr ⟨(hs.ordered c hlegal.1).next,
        fun c' hc' => hs.ordered c' (List.mem_of_mem_erase hc')⟩
  | ret c => exact fun c' hc' => hs.ordered c' (List.mem_of_mem_erase hc')
  | _ => exact hs.ordered

/-- Codecs bring only lines into the cache that have still to be cleaned. -/
theorem cached_decoding (hs : Coherent s) (hc : c ∈ s.calls) (hdecoding : c.Decoding) {a : Nat}
    (ha : ∃ b ∈ c.blocks, b.Holds a) {l : Nat} (hl : s.mem.Cached l ∨ l = a / L) :
    ∃ c ∈ s.calls, ∃ b ∈ c.blocks, b.ptr ∈ c.pending ∧ b.OnLine L l := by
  rcases hl with hl | rfl
  · exact hs.cached l hl
  · obtain ⟨b, hb, ha⟩ := ha
    exact ⟨c, hc, b, hb, (hs.ordered c hc).mem_pending_of_decoding hdecoding hb,
      (hs.placed b (hs.live c hc b hb)).onLine_of_holds ha⟩

/-- The next action of a handler loads no line that stays, and a block that it
cleans leaves none behind. -/
theorem cached_memAfter (hs : Coherent s) (hc : c ∈ s.calls) {l : Nat}
    (hl : (s.memAfter (Machine.cached L) c.todo).Cached l) :
    s.mem.Cached l ∧
      ∀ b ∈ c.blocks, ∀ rest, c.todo = .clean b.ptr :: rest → ¬b.OnLine L l := by
  unfold memAfter at hl
  split at hl
  · next ptr rest htodo =>
      obtain ⟨b, hb, rfl⟩ := hs.exists_block hc htodo
      have hplaced := hs.placed b (hs.live c hc b hb)
      rw [hs.dceClean_eq hc hb, Cache.cached_wbInv, Cache.cached_load, hplaced.overlaps_iff] at hl
      constructor
      · -- the line of the header is dropped with the block
        exact hl.1.resolve_right fun heq => hl.2 (heq ▸ hplaced.onLine_firstLine)
      · intro b' hb' rest' htodo'
        rw [htodo] at htodo'
        injection htodo' with hclean
        injection hclean with hptr
        have heq := hs.eq_of_ptr_eq (hs.live c hc b hb) (hs.live c hc b' hb') hptr
        exact heq ▸ hl.2
  · next hother => exact ⟨hl, fun b _ rest htodo => absurd htodo (hother b.ptr rest)⟩

/-- Other calls keep what they have to clean, and the call that takes a step
keeps all but what it cleans. -/
theorem cached_advance (hs : Coherent s) (hc : c ∈ s.calls) {l : Nat}
    (hl : (s.memAfter (Machine.cached L) c.todo).Cached l) :
    ∃ c' ∈ c.next :: s.calls.erase c, ∃ b ∈ c'.blocks, b.ptr ∈ c'.pending ∧ b.OnLine L l := by
  obtain ⟨hold, hcleaned⟩ := hs.cached_memAfter hc hl
  obtain ⟨c', hc', b, hb, hpending, hline⟩ := hs.cached l hold
  rcases (mem_calls_iff hc).mp hc' with rfl | hother
  · rcases Call.mem_pending hpending with hnext | ⟨rest, htodo⟩
    · exact ⟨_, List.mem_cons_self, b, hb, hnext, hline⟩
    · exact absurd hline (hcleaned b hb rest htodo)
  · exact ⟨c', List.mem_cons_of_mem _ hother, b, hb, hpending, hline⟩

theorem cached_step (hs : Coherent s) (hlegal : s.Legal (Machine.cached L) L a) :
    ∀ l, (s.step (Machine.cached L) a).mem.Cached l →
      ∃ c ∈ (s.step (Machine.cached L) a).calls, ∃ b ∈ c.blocks,
        b.ptr ∈ c.pending ∧ b.OnLine L l := by
  intro l hl
  cases a with
  | begin pid req reply blocks =>
      obtain ⟨c, hc, hline⟩ := hs.cached l hl
      exact ⟨c, List.mem_cons_of_mem _ hc, hline⟩
  | codecRead c a =>
      exact hs.cached_decoding hlegal.1 hlegal.2.1 hlegal.2.2 ((Cache.cached_load _ _ _).mp hl)
  | codecWrite c a v =>
      exact hs.cached_decoding hlegal.1 hlegal.2.1 hlegal.2.2 ((Cache.cached_write _ _ _ _).mp hl)
  | advance c => exact hs.cached_advance hlegal.1 hl
  | ret c =>
      obtain ⟨c', hc', b, hb, hpending, hline⟩ := hs.cached l hl
      rcases (mem_calls_iff hlegal.1).mp hc' with rfl | hother
      · -- nothing is left to clean
        rw [Call.pending, hlegal.2] at hpending
        exact absurd hpending List.not_mem_nil
      · exact ⟨c', hother, b, hb, hpending, hline⟩
  | evict l' => exact hs.cached l ((Cache.cached_flush _ (· = l') _).mp hl).1
  | dceAlloc b => exact hs.cached l hl
  | dceFree b => exact hs.cached l hl
  | hostWrite a v => exact hs.cached l hl
  | hostRead a => exact hs.cached l hl

theorem step (hs : Coherent s) (hlegal : s.Legal (Machine.cached L) L a) (hwaits : s.HostWaits a) :
    Coherent (s.step (Machine.cached L) a) where
  sound := hs.sound_step hlegal hwaits
  placed := hs.placed_step hlegal
  apart := hs.apart_step hlegal
  headers := hs.headers_step hlegal hwaits
  live := hs.live_step hlegal hwaits
  exclusive := hs.exclusive_step hlegal
  ordered := hs.ordered_step hlegal
  cached := hs.cached_step hlegal

end Coherent

variable (L) in
/-- The state after a run with a cache that starts empty. -/
def cachedRun (mem : Buffer) (actions : List Action) : State (Cache L Byte) :=
  final (step (Machine.cached L)) (zero (Cache.cold mem)) actions

/-- The state after the same run on flat memory. -/
def flatRun (mem : Buffer) (actions : List Action) : State Buffer :=
  final (step Machine.flat) (zero mem) actions

section Runs

variable {mem : Buffer} {actions : List Action}

theorem coherent_cachedRun
    (run : Run (step (Machine.cached L)) (fun s a => s.Legal (Machine.cached L) L a ∧ s.HostWaits a)
      (zero (Cache.cold mem)) actions) : Coherent (cachedRun L mem actions) :=
  run.invariant (Coherent.zero mem) fun _ _ hs h => hs.step h.1 h.2

theorem flatten_cachedRun
    (run : Run (step (Machine.cached L)) (fun s a => s.Legal (Machine.cached L) L a ∧ s.HostWaits a)
      (zero (Cache.cold mem)) actions) : (cachedRun L mem actions).flatten = flatRun mem actions := by
  have hmap := run.map_final (Coherent.zero mem) (fun _ _ hs h => hs.step h.1 h.2)
    fun _ _ hs h => hs.flatten_step h.1 h.2
  have hzero : (zero (Cache.cold mem) : State (Cache L Byte)).flatten = zero mem := by
    simp only [flatten, zero, Cache.view_cold]
  rw [cachedRun, hmap, hzero, flatRun]

/-- In every run in which the host leaves the structures of calls alone until the
calls have returned, codecs and `dce_clean` read what they would read from flat
memory, and so does the host once the calls have returned; `dce_clean` reads the
size of the block it is called with; and the lines in the cache after a handler
has returned belong to structures of other calls that have not returned. -/
theorem coherence_of_hostWaits (mem : Buffer) {actions : List Action}
    (run : Run (step (Machine.cached L)) (fun s a => s.Legal (Machine.cached L) L a ∧ s.HostWaits a)
      (zero (Cache.cold mem)) actions) :
    (∀ pre a, pre ++ [a] <+: actions → (cachedRun L mem pre).Settled a →
      (cachedRun L mem pre).observe (Machine.cached L) a =
        (flatRun mem pre).observe Machine.flat a) ∧
    (∀ pre c ptr rest, pre ++ [.advance c] <+: actions → c.todo = .clean ptr :: rest →
      ∃ b ∈ (cachedRun L mem pre).blocks, b.ptr = ptr ∧
        (cachedRun L mem pre).observe (Machine.cached L) (.advance c) = some (.size b.size)) ∧
    ∀ pre c, pre ++ [.ret c] <+: actions →
      ∀ l, (cachedRun L mem (pre ++ [.ret c])).mem.Cached l →
        ∃ c' ∈ (cachedRun L mem (pre ++ [.ret c])).calls, ∃ b ∈ c'.blocks, b.OnLine L l := by
  have hprefix : ∀ pre a, pre ++ [a] <+: actions →
      Coherent (cachedRun L mem pre) ∧ (cachedRun L mem pre).Legal (Machine.cached L) L a ∧
        (cachedRun L mem pre).flatten = flatRun mem pre := by
    intro pre a hpre
    obtain ⟨hrun, hlegal, -⟩ := (run_concat _ _ _).mp (run.shorten hpre)
    exact ⟨coherent_cachedRun hrun, hlegal, flatten_cachedRun hrun⟩
  refine ⟨?_, ?_, ?_⟩
  · intro pre a hpre hsettled
    obtain ⟨hs, hlegal, hflat⟩ := hprefix pre a hpre
    rw [hs.observe_flatten hlegal hsettled, hflat]
  · intro pre c ptr rest hpre htodo
    obtain ⟨hs, hlegal, -⟩ := hprefix pre _ hpre
    obtain ⟨b, hb, rfl⟩ := hs.exists_block hlegal.1 htodo
    exact ⟨b, hs.live c hlegal.1 b hb, rfl, hs.observe_clean hlegal.1 hb htodo⟩
  · intro pre c hpre l hl
    obtain ⟨c', hc', b, hb, -, hline⟩ := (coherent_cachedRun (run.shorten hpre)).cached l hl
    exact ⟨c', hc', b, hb, hline⟩

/-- Two blocks, and a third that takes the place of the first with another size. -/
def firstBlock : Block := ⟨40, 16⟩

def secondBlock : Block := ⟨72, 40⟩

def reusedBlock : Block := ⟨40, 24⟩

/-- A client creates a codec with parameters in a block. -/
def createRequest (params : Block) : CeRequest :=
  .viddec3Create 100 (some .empty) params.ptr

/-- The call of that request once its worker has set the environment of the task
and Codec Engine is working. -/
def decodingCall (pid : Pid) (params : Block) : Call :=
  (Call.mk [params] ((createRequest params).actions pid ⟨200, 0⟩)).next

def beginCreate (pid : Pid) (params : Block) : List Action :=
  [.begin pid (createRequest params) ⟨200, 0⟩ [params],
    .advance ⟨[params], (createRequest params).actions pid ⟨200, 0⟩⟩]

/-- The rest of the handler. -/
def finishCreate (c : Call) : List Action :=
  [.advance c, .advance c.next, .advance c.next.next]

/-- One handler returns while the codec of another call is at work. -/
def twoCalls : List Action :=
  [.dceAlloc firstBlock, .dceAlloc secondBlock] ++ beginCreate 7 firstBlock ++
    beginCreate 9 secondBlock ++ [.codecRead (decodingCall 9 secondBlock) 80] ++
    finishCreate (decodingCall 7 firstBlock) ++ [.ret (decodingCall 7 firstBlock).next.next.next]

/-- The host writes a structure that the codec has read and reads again. -/
def writeInCall : List Action :=
  [.dceAlloc firstBlock] ++ beginCreate 7 firstBlock ++
    [.codecRead (decodingCall 7 firstBlock) 41, .hostWrite 41 5]

/-- The host frees a structure that the codec has read, and allocates there. -/
def freeInCall : List Action :=
  [.dceAlloc firstBlock] ++ beginCreate 7 firstBlock ++
    [.codecRead (decodingCall 7 firstBlock) 41, .dceFree firstBlock, .dceAlloc reusedBlock,
      .advance (decodingCall 7 firstBlock)]

/-- A line of a block is in the cache when a handler returns; the codec does not
see what the host wrote last; and `dce_clean` reads a size that is not that of
the block. -/
theorem incoherent_runs :
    (∀ actions ∈ [twoCalls, writeInCall ++ [.codecRead (decodingCall 7 firstBlock) 41],
        freeInCall ++ [.advance (decodingCall 7 firstBlock).next]],
      Run (step (Machine.cached 32)) (fun s a => s.Legal (Machine.cached 32) 32 a)
        (zero (Cache.cold fun _ => 0)) actions) ∧
    (secondBlock ∈ (cachedRun 32 (fun _ => 0) twoCalls).blocks ∧
      secondBlock.OnLine 32 2 ∧ (cachedRun 32 (fun _ => 0) twoCalls).mem.Cached 2) ∧
    ((cachedRun 32 (fun _ => 0) writeInCall).observe (Machine.cached 32)
        (.codecRead (decodingCall 7 firstBlock) 41) = some (.byte 0) ∧
      (flatRun (fun _ => 0) writeInCall).observe Machine.flat
        (.codecRead (decodingCall 7 firstBlock) 41) = some (.byte 5)) ∧
    ((cachedRun 32 (fun _ => 0) freeInCall).blocks = [reusedBlock] ∧
      (cachedRun 32 (fun _ => 0) freeInCall).observe (Machine.cached 32)
        (.advance (decodingCall 7 firstBlock).next) = some (.size firstBlock.size)) := by
  decide +kernel

/-- A block is passed to a call, freed, and allocated again with another size. -/
def blockReused : List Action :=
  [.dceAlloc firstBlock, .hostWrite 41 5] ++ beginCreate 7 firstBlock ++
    [.codecRead (decodingCall 7 firstBlock) 41, .codecWrite (decodingCall 7 firstBlock) 42 6] ++
    finishCreate (decodingCall 7 firstBlock) ++
    [.ret (decodingCall 7 firstBlock).next.next.next, .hostRead 42, .dceFree firstBlock,
      .dceAlloc reusedBlock] ++ beginCreate 7 reusedBlock ++
    [.codecRead (decodingCall 7 reusedBlock) 42, .advance (decodingCall 7 reusedBlock)]

theorem coherence_of_hostWaits_reused :
    (cachedRun 32 (fun _ => 0) blockReused).observe (Machine.cached 32)
      (.advance (decodingCall 7 reusedBlock).next) = some (.size reusedBlock.size) := by
  have run : Run (step (Machine.cached 32))
      (fun s a => s.Legal (Machine.cached 32) 32 a ∧ s.HostWaits a) (zero (Cache.cold fun _ => 0))
      (blockReused ++ [.advance (decodingCall 7 reusedBlock).next]) := by
    decide +kernel
  have hflat := (coherence_of_hostWaits _ run).1 _ _ List.prefix_rfl trivial
  rw [hflat]
  decide +kernel

end Runs

end State

end Libdce.Coherence
