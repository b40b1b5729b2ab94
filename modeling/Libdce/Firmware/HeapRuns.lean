import Libdce.Firmware.TiledHandles
import Libdce.Foundation.GuardedRuns

/-!
# The heap over whole runs

Codecs come and go with their tables, and so do the handles for tiled memory, all on
one heap and in any order, while the codecs write into what they were given. Whatever
has been handed out and not given back is there, apart from everything else, and
nothing beyond it is live but what was live before.

## Implementation notes

A table or a handle that was handed out is a loan. Each loan is backed by the blocks
that were granted for it, which only the proofs know.
-/

namespace Libdce.Firmware

open Foundation.Bytes Foundation.Allocation Foundation.GuardedRuns

namespace Granted

variable {A : Allocator} {before : Finset Block} {g : Grant} {gs gs' : List Grant} {heap heap' : Heap}

/-- Grants on top of grants. -/
theorem trans (h : Granted before gs heap) (h' : Granted heap.live gs' heap')
    (hkept : Evolves heap.live heap heap') : Granted before (gs ++ gs') heap' where
  live b := by
    rw [h'.live, h.live, List.map_append, List.mem_append, or_assoc]
  apart := by
    refine List.pairwise_append.mpr ⟨h.apart, h'.apart, ?_⟩
    intro g hg g' hg'
    exact (h'.outside g' hg' g.block (h.mem_live hg)).symm
  outside g hg b hb := by
    rcases List.mem_append.mp hg with hg | hg
    · exact h.outside g hg b hb
    · exact h'.outside g hg b ((h.live b).mpr (Or.inl hb))
  headers g hg := by
    rcases List.mem_append.mp hg with hg | hg
    · refine (h.headers g hg).congr fun a ha => ?_
      exact hkept.keeps g.block (h.mem_live hg) a (g.header_within.holds ha)
    · exact h'.headers g hg

/-- The order of the grants does not matter. -/
theorem perm (h : Granted before gs heap) (hperm : gs.Perm gs') : Granted before gs' heap where
  live b := by
    rw [h.live, (hperm.map Grant.block).mem_iff]
  apart := (hperm.pairwise_iff fun happart => happart.symm).mp h.apart
  outside g hg := h.outside g (hperm.mem_iff.mpr hg)
  headers g hg := h.headers g (hperm.mem_iff.mpr hg)

/-- Some of the grants count as live before. -/
theorem split (h : Granted before (gs ++ gs') heap) :
    Granted (before ∪ (gs'.map Grant.block).toFinset) gs heap where
  live b := by
    rw [h.live, List.map_append, List.mem_append, Finset.mem_union, List.mem_toFinset]
    tauto
  apart := (List.pairwise_append.mp h.apart).1
  outside g hg b hb := by
    rcases Finset.mem_union.mp hb with hb | hb
    · exact h.outside g (List.mem_append_left _ hg) b hb
    · obtain ⟨g', hg', rfl⟩ := List.mem_map.mp (List.mem_toFinset.mp hb)
      exact (List.pairwise_append.mp h.apart).2.2 g hg g' hg'
  headers g hg := h.headers g (List.mem_append_left _ hg)

/-- With some of the grants gone, the others are left. -/
theorem rest (h : Granted before (gs ++ gs') heap)
    (hlive : heap'.live = before ∪ (gs'.map Grant.block).toFinset)
    (hkept : Evolves (before ∪ (gs'.map Grant.block).toFinset) heap heap') :
    Granted before gs' heap' where
  live b := by
    rw [hlive, Finset.mem_union, List.mem_toFinset]
  apart := (List.pairwise_append.mp h.apart).2.1
  outside g hg := h.outside g (List.mem_append_right _ hg)
  headers g hg := by
    refine (h.headers g (List.mem_append_right _ hg)).congr fun a ha => ?_
    apply hkept.keeps g.block _ a (g.header_within.holds ha)
    exact Finset.mem_union_right _ (List.mem_toFinset.mpr (List.mem_map_of_mem hg))

/-- Giving back the first block does no harm to what was live before. -/
theorem evolves_release (hA : A.Sound) (h : Granted before (g :: gs) heap) :
    Evolves before heap (A.release heap g.block) := by
  apply Evolves.release hA (h.mem_live List.mem_cons_self)
  intro b hb
  refine Finset.mem_erase.mpr ⟨?_, (h.live b).mpr (Or.inl hb)⟩
  rintro rfl
  exact h.not_before List.mem_cons_self hb

theorem evolves_freeAll (hA : A.Sound) (h : Granted before gs heap) :
    Evolves before heap ((gs.map Grant.record).foldl (freeRec A) heap) := by
  induction gs generalizing heap with
  | nil => exact Evolves.refl before heap
  | cons g gs ih =>
      rw [List.map_cons, List.foldl_cons, g.freeRec_of_kept A (h.headers g List.mem_cons_self)]
      exact (h.evolves_release hA).trans (ih (h.release hA))

end Granted

section Code

variable {A : Allocator} {before : Finset Block} {gs : List Grant} {heap heap' : Heap}
  {todo memTab memTab' : List MemRec} {ok : Bool}

/-- A record is taken from the heap without touching what is live. -/
theorem evolves_allocRec (hA : A.Sound) {r : MemRec} (hr : r.Fits) {r' : Option MemRec}
    (hrun : allocRec A r heap = (r', heap')) : Evolves heap.live heap heap' := by
  obtain ⟨ptr, heap₁, hask⟩ : ∃ ptr heap₁,
      A.allocate heap (r.size + r.pad) r.alignment = (ptr, heap₁) := ⟨_, _, rfl⟩
  have hevolves := Evolves.allocate hA hask (Finset.Subset.refl _)
  rcases Allocator.allocate_cases hask with ⟨rfl, -, -⟩ | ⟨hptr, hgrant, -, -⟩
  · simp only [allocRec, hask, if_true, Prod.mk.injEq] at hrun
    obtain ⟨-, rfl⟩ := hrun
    exact hevolves
  · simp only [allocRec, hask, if_neg hptr, Prod.mk.injEq] at hrun
    obtain ⟨-, rfl⟩ := hrun
    obtain ⟨hfits, hfresh⟩ := hA.fresh heap (r.size + r.pad) r.alignment (hgrant ▸ hptr)
    have hsize : (r.size + r.pad).toNat = r.size.toNat + r.pad.toNat := by
      rw [BitVec.toNat_add, Nat.mod_eq_of_lt hr]
    rw [← hgrant] at hfits hfresh
    let g : Grant := ⟨{ r with base := ptr + r.pad }, ⟨ptr, r.size + r.pad⟩, hsize, hfits, rfl⟩
    apply hevolves.write
    intro b hb a ha
    -- the header lies in the new block
    have hbase : g.record.base = ptr + r.pad := rfl
    have hout : ¬g.record.header.Holds a := fun h' => hfresh b hb a ha (g.header_within.holds h')
    simp only [Extent.Holds, MemRec.header, hbase] at hout
    exact storeHeader_apply_of_apart _ (by omega)

theorem evolves_allocLoop (hA : A.Sound) (h : Granted before gs heap) (htodo : ∀ r ∈ todo, r.Fits)
    (hrun : allocLoop A (gs.map Grant.record) todo heap = (ok, memTab', heap')) :
    Evolves before heap heap' := by
  induction todo generalizing gs heap with
  | nil =>
      simp only [allocLoop, Prod.mk.injEq] at hrun
      obtain ⟨-, -, rfl⟩ := hrun
      exact Evolves.refl before heap
  | cons r todo ih =>
      obtain ⟨hr, htodo⟩ := List.forall_mem_cons.mp htodo
      have hbefore : before ⊆ heap.live := fun b hb => (h.live b).mpr (Or.inl hb)
      rcases h.allocRec_cases hA hr with ⟨heap₁, hask, hkept, -⟩ | ⟨g, heap₁, hask, -, hkept, -⟩
      · have hevolves := (evolves_allocRec hA hr hask).mono hbefore
        simp only [allocLoop, hask, freeFxn, List.take_left' rfl, Prod.mk.injEq] at hrun
        obtain ⟨-, -, rfl⟩ := hrun
        exact hevolves.trans (hkept.evolves_freeAll hA)
      · have hevolves := (evolves_allocRec hA hr hask).mono hbefore
        simp only [allocLoop, hask] at hrun
        rw [← List.map_singleton, ← List.map_append] at hrun
        exact hevolves.trans (ih hkept htodo hrun)

/-- A table is taken from the heap, or the heap is as it was. -/
theorem Granted.allocFxn_cases (hA : A.Sound) (h : Granted before gs heap)
    (hfits : ∀ r ∈ memTab, r.Fits) :
    (∃ memTab' heap', allocFxn A memTab heap = (false, memTab', heap') ∧
      Granted before gs heap' ∧ Evolves heap.live heap heap') ∨
    ∃ gs' heap', allocFxn A memTab heap = (true, gs'.map Grant.record, heap') ∧
      List.Forall₂ (Grant.Answers A) memTab gs' ∧ Granted before (gs ++ gs') heap' ∧
      Evolves heap.live heap heap' := by
  obtain ⟨ok, memTab', heap', hrun⟩ : ∃ ok memTab' heap', allocFxn A memTab heap =
      (ok, memTab', heap') := ⟨_, _, _, rfl⟩
  have hevolves := evolves_allocLoop hA (.nil heap) hfits hrun
  cases ok with
  | false =>
      obtain ⟨gs', rest, heap₁, hgranted, -, -, -, rfl⟩ :=
        allocLoop_refused hA (.nil heap) hfits hrun
      rw [List.nil_append] at hgranted hrun hevolves
      obtain ⟨hlive, -⟩ := hgranted.freeAll hA
      refine Or.inl ⟨memTab', _, hrun, ?_, hevolves⟩
      refine h.congr hlive fun g hg a ha => ?_
      exact hevolves.keeps g.block (h.mem_live hg) a (g.header_within.holds ha)
  | true =>
      obtain ⟨gs', rfl, hall, hgranted, -⟩ := allocLoop_granted hA (.nil heap) hfits hrun
      rw [List.nil_append] at hgranted hrun
      exact Or.inr ⟨gs', heap', hrun, hall, h.trans hgranted hevolves, hevolves⟩

theorem evolves_allocRes (hA : A.Sound) {size base : Word} (hsize : size.toNat + 8 < 2 ^ 32)
    (hrun : allocRes A size heap = (base, heap')) : Evolves heap.live heap heap' := by
  obtain ⟨ok, memTab, heap₁, halloc⟩ : ∃ ok memTab heap₁,
      allocFxn A [⟨size, 4, 0⟩] heap = (ok, memTab, heap₁) := ⟨_, _, _, rfl⟩
  have hfits : ∀ r ∈ [(⟨size, 4, 0⟩ : MemRec)], r.Fits := List.forall_mem_singleton.mpr hsize
  have hevolves := evolves_allocLoop hA (.nil heap) hfits halloc
  simp only [allocRes, halloc] at hrun
  cases ok <;> (cases hrun; exact hevolves)

/-- A buffer and a handle are taken from the heap without touching what is live. -/
theorem evolves_getHandles (hA : A.Sound) {layout : HandleLayout} (reader : layout.Reader)
    {args : TiledArgs} (hargs : args.size.toNat + 8 < 2 ^ 32)
    (hlayout : layout.size.toNat + 8 < 2 ^ 32) {out : Option (Word × TiledHandle)}
    (hrun : getHandles A layout args heap = (out, heap')) : Evolves heap.live heap heap' := by
  rcases (Granted.nil heap).allocRes_cases hA hargs with ⟨heap₁, hask, -, -⟩ |
    ⟨buffer, heap₁, hask, -, hkept, -⟩
  · simp only [getHandles, hask, if_true, Prod.mk.injEq] at hrun
    exact hrun.2 ▸ evolves_allocRes hA hargs hask
  · rw [List.nil_append] at hkept
    have hbuffer := buffer.base_ne_zero
    have hfirst := evolves_allocRes hA hargs hask
    have hlive : heap.live ⊆ heap₁.live := fun b hb => (hkept.live b).mpr (Or.inl hb)
    rcases hkept.allocRes_cases hA hlayout with ⟨heap₂, hask', hkept', -⟩ |
      ⟨handle, heap₂, hask', hsize', hkept', -⟩
    · have hsecond := hfirst.trans ((evolves_allocRes hA hlayout hask').mono hlive)
      simp only [getHandles, hask, hask', if_neg hbuffer, if_true,
        hkept'.freeRes_eq List.mem_cons_self, Prod.mk.injEq] at hrun
      exact hrun.2 ▸ hsecond.trans (hkept'.evolves_release hA)
    · have hsecond := hfirst.trans ((evolves_allocRes hA hlayout hask').mono hlive)
      have hhandle := handle.base_ne_zero
      simp only [getHandles, hask, hask', if_neg hbuffer, if_neg hhandle, Prod.mk.injEq] at hrun
      obtain ⟨-, rfl⟩ := hrun
      apply hsecond.write
      intro b hb a ha
      -- the handle is stored in its own payload
      have hmem : handle ∈ [buffer] ++ [handle] := List.mem_append_right _ List.mem_cons_self
      have hout : ¬handle.record.payload.Holds a := fun h' =>
        hkept'.outside handle hmem b hb a (handle.payload_within.holds h') ha
      simp only [Extent.Holds, MemRec.payload, hsize'] at hout
      exact reader.store_outside _ _ _ _ (by omega)

/-- A buffer and a handle are taken from the heap, or the heap is as it was. -/
theorem Granted.getHandles_on (hA : A.Sound) (h : Granted before gs heap) {layout : HandleLayout}
    (reader : layout.Reader) {args : TiledArgs} (hargs : args.size.toNat + 8 < 2 ^ 32)
    (hlayout : layout.size.toNat + 8 < 2 ^ 32) :
    (∃ heap', getHandles A layout args heap = (none, heap') ∧ Granted before gs heap' ∧
      Evolves heap.live heap heap') ∨
    ∃ buffer handle heap', getHandles A layout args heap =
        (some (handle.record.base, ⟨buffer.record.base, buffer.record.base, false, 0⟩), heap') ∧
      buffer.record.size = args.size ∧ handle.record.size = layout.size ∧
      Granted before (gs ++ [buffer, handle]) heap' ∧ Evolves heap.live heap heap' ∧
      reader.base handle.record.base heap'.mem = buffer.record.base := by
  rcases getHandles_cases hA layout reader hargs hlayout heap with ⟨heap', hrun, hlive⟩ |
    ⟨buffer, handle, heap', hrun, hsize, hsize', hkept, hbase, -⟩
  · have hevolves := evolves_getHandles hA reader hargs hlayout hrun
    refine Or.inl ⟨heap', hrun, h.congr hlive fun g hg a ha => ?_, hevolves⟩
    exact hevolves.keeps g.block (h.mem_live hg) a (g.header_within.holds ha)
  · have hevolves := evolves_getHandles hA reader hargs hlayout hrun
    exact Or.inr ⟨buffer, handle, heap', hrun, hsize, hsize', h.trans hkept hevolves, hevolves,
      hbase⟩

end Code

variable {layout : HandleLayout}

/-- What has been handed out and not given back: a table, or a handle with the address
and the number of bytes of its buffer. -/
inductive Loan where
  | table (memTab : List MemRec)
  | tiled (handle base : Word) (len : ℕ)

/-- The addresses that the borrower may use. -/
def Loan.buffers : Loan → List Extent
  | .table memTab => memTab.map MemRec.payload
  | .tiled _ base len => [⟨base.toNat, len⟩]

/-- The addresses of the handle itself. -/
def Loan.handles (layout : HandleLayout) : Loan → List Extent
  | .table _ => []
  | .tiled handle _ _ => [⟨handle.toNat, layout.size.toNat⟩]

/-- `freeFxn` of a table or `freeHandles` of a handle. -/
def Loan.giveBack (A : Allocator) (reader : layout.Reader) (args : TiledArgs) (heap : Heap) :
    Loan → Heap
  | .table memTab => freeFxn A memTab memTab.length heap
  | .tiled handle _ _ => freeHandles A reader handle args heap

/-- The heap and the loans. -/
structure Lending where
  heap : Heap
  loans : List Loan

/-- What the codecs and the framework do with the heap; the dimensions that a handle is
given back with are those of then. -/
inductive HeapAction where
  | alloc (memTab : List MemRec)
  | getHandles (args : TiledArgs)
  | giveBack (i : ℕ) (args : TiledArgs)
  | write (mem : Buffer)

namespace Lending

/-- What each action does. -/
def step (A : Allocator) (reader : layout.Reader) (s : Lending) : HeapAction → Lending
  | .alloc memTab =>
      match allocFxn A memTab s.heap with
      | (true, memTab, heap) => ⟨heap, s.loans ++ [.table memTab]⟩
      | (false, _, heap) => ⟨heap, s.loans⟩
  | .getHandles args =>
      match getHandles A layout args s.heap with
      | (some (handle, contents), heap) =>
          ⟨heap, s.loans ++ [.tiled handle contents.memoryBaseAddress args.requested]⟩
      | (none, heap) => ⟨heap, s.loans⟩
  | .giveBack i args =>
      match s.loans[i]? with
      | some loan => ⟨loan.giveBack A reader args s.heap, s.loans.eraseIdx i⟩
      | none => s
  | .write mem => { s with heap := { s.heap with mem } }

/-- Sizes are 32-bit numbers with their headers, and borrowers write into what they have
borrowed. -/
def Legal (s : Lending) : HeapAction → Prop
  | .alloc memTab => ∀ r ∈ memTab, r.Fits
  | .getHandles args => args.requested + 8 < 2 ^ 32
  | .giveBack _ _ => True
  | .write mem => ∀ a, (∀ loan ∈ s.loans, ∀ e ∈ loan.buffers, ¬e.Holds a) → mem a = s.heap.mem a

/-- The blocks behind a loan. -/
def Backs (reader : layout.Reader) (mem : Buffer) : Loan → List Grant → Prop
  | .table memTab, gs => memTab = gs.map Grant.record
  | .tiled handle base len, gs => ∃ g g', gs = [g, g'] ∧ handle = g'.record.base ∧
      base = g.record.base ∧ g.record.size.toNat = len ∧ g'.record.size = layout.size ∧
      reader.base handle mem = base

section Backing

variable {A : Allocator} {reader : layout.Reader} {mem mem' : Buffer} {loans : List Loan}
  {gs : List Grant} {gss : List (List Grant)} {loan : Loan} {before : Finset Block} {heap : Heap}

theorem Backs.payloads (h : Backs reader mem loan gs) :
    loan.buffers ++ loan.handles layout = gs.map fun g => g.record.payload := by
  cases loan with
  | table memTab =>
      have htable : memTab = gs.map Grant.record := h
      simp only [Loan.buffers, Loan.handles, htable, List.append_nil, List.map_map]
      rfl
  | tiled handle base len =>
      obtain ⟨g, g', rfl, rfl, rfl, rfl, hsize, -⟩ := h
      simp only [Loan.buffers, Loan.handles, ← hsize]
      rfl

/-- All that is lent lies in the blocks behind it, piece by piece. -/
theorem payloads_perm (h : List.Forall₂ (Backs reader mem) loans gss) :
    (loans.flatMap Loan.buffers ++ loans.flatMap (Loan.handles layout)).Perm
      (gss.flatten.map fun g => g.record.payload) := by
  have hall : (loans.flatMap fun loan => loan.buffers ++ loan.handles layout) =
      gss.flatten.map fun g => g.record.payload := by
    induction h with
    | nil => rfl
    | cons hback _ ih =>
        rw [List.flatMap_cons, List.flatten_cons, List.map_append, ih, hback.payloads]
  rw [← hall]
  exact List.flatMap_append_perm loans _ _

theorem pairwise_apart (h : List.Forall₂ (Backs reader mem) loans gss)
    (hgranted : Granted before gss.flatten heap) :
    (loans.flatMap Loan.buffers ++ loans.flatMap (Loan.handles layout)).Pairwise Extent.Apart := by
  refine ((payloads_perm h).pairwise_iff fun happart => happart.symm).mpr ?_
  rw [List.pairwise_map]
  exact hgranted.apart.imp fun happart => happart.within (Grant.payload_within _) (Grant.payload_within _)

/-- Handles are read as before if nobody has written into them. -/
theorem backs_congr (h : List.Forall₂ (Backs reader mem) loans gss)
    (hmem : ∀ e ∈ loans.flatMap (Loan.handles layout), ∀ a, e.Holds a → mem' a = mem a) :
    List.Forall₂ (Backs reader mem') loans gss := by
  induction h with
  | nil => exact List.Forall₂.nil
  | @cons loan gs loans gss hback _ ih =>
      simp only [List.flatMap_cons, List.mem_append] at hmem
      refine List.Forall₂.cons ?_ (ih fun e he => hmem e (Or.inr he))
      cases loan with
      | table memTab => exact hback
      | tiled handle base len =>
          obtain ⟨g, g', hgs, hhandle, hbase, hlen, hsize, hread⟩ := hback
          refine ⟨g, g', hgs, hhandle, hbase, hlen, hsize, ?_⟩
          rw [← hread]
          apply reader.base_congr
          exact fun a hlo hhi => hmem _ (Or.inl List.mem_cons_self) a ⟨hlo, hhi⟩

/-- A heap that keeps the blocks behind the loans keeps the handles. -/
theorem backs_keep (h : List.Forall₂ (Backs reader mem) loans gss)
    (hmem : ∀ g ∈ gss.flatten, ∀ a, g.block.extent.Holds a → mem' a = mem a) :
    List.Forall₂ (Backs reader mem') loans gss := by
  apply backs_congr h
  intro e he a ha
  obtain ⟨g, hg, rfl⟩ := List.mem_map.mp ((payloads_perm h).mem_iff.mp (List.mem_append_right _ he))
  exact hmem g hg a (g.payload_within.holds ha)

theorem backs_append (h : List.Forall₂ (Backs reader mem) loans gss) (hback : Backs reader mem loan gs) :
    List.Forall₂ (Backs reader mem) (loans ++ [loan]) (gss ++ [gs]) := by
  induction h with
  | nil => exact List.Forall₂.cons hback List.Forall₂.nil
  | cons hfirst _ ih => exact List.Forall₂.cons hfirst ih

/-- The blocks behind one of the loans. -/
theorem backs_erase (h : List.Forall₂ (Backs reader mem) loans gss) {i : ℕ}
    (hi : loans[i]? = some loan) :
    ∃ gs gss', Backs reader mem loan gs ∧ List.Forall₂ (Backs reader mem) (loans.eraseIdx i) gss' ∧
      gss.flatten.Perm (gs ++ gss'.flatten) := by
  induction h generalizing i with
  | nil => cases hi
  | @cons first gs loans gss hback hrest ih =>
      cases i with
      | zero =>
          obtain rfl := Option.some.inj hi
          exact ⟨gs, gss, hback, hrest, List.Perm.refl _⟩
      | succ i =>
          obtain ⟨gs', gss', hback', hrest', hperm⟩ := ih hi
          refine ⟨gs', gs :: gss', hback', List.Forall₂.cons hback hrest', ?_⟩
          calc
            (gs :: gss).flatten = gs ++ gss.flatten := List.flatten_cons
            (gs ++ gss.flatten).Perm (gs ++ (gs' ++ gss'.flatten)) := hperm.append_left gs
            (gs ++ (gs' ++ gss'.flatten)).Perm (gs' ++ (gs ++ gss'.flatten)) := by
              rw [← List.append_assoc, ← List.append_assoc]
              exact List.perm_append_comm.append_right _
            gs' ++ (gs ++ gss'.flatten) = gs' ++ (gs :: gss').flatten := by rw [List.flatten_cons]

/-- Giving a loan back frees the blocks behind it and does no harm to others. -/
theorem Backs.giveBack (hA : A.Sound) (hback : Backs reader heap.mem loan gs)
    (h : Granted before gs heap) (args : TiledArgs) :
    (loan.giveBack A reader args heap).live = before ∧
      Evolves before heap (loan.giveBack A reader args heap) := by
  cases loan with
  | table memTab =>
      have htable : memTab = gs.map Grant.record := hback
      simp only [Loan.giveBack, freeFxn, List.take_length, htable]
      exact ⟨(h.freeAll hA).1, h.evolves_freeAll hA⟩
  | tiled handle base len =>
      obtain ⟨g, g', rfl, rfl, rfl, -, -, hread⟩ := hback
      have hrest := h.release hA
      simp only [Loan.giveBack, freeHandles, hread]
      refine ⟨(h.freeRes_two hA).1, ?_⟩
      rw [h.freeRes_eq List.mem_cons_self, hrest.freeRes_eq List.mem_cons_self]
      exact (h.evolves_release hA).trans (hrest.evolves_release hA)

end Backing

/-- Every loan is backed by blocks of its own, and no harm was done to what was live
before. -/
structure Accounts (reader : layout.Reader) (before : Heap) (s : Lending) (gss : List (List Grant)) :
    Prop where
  backs : List.Forall₂ (Backs reader s.heap.mem) s.loans gss
  granted : Granted before.live gss.flatten s.heap
  evolves : Evolves before.live before s.heap

namespace Accounts

variable {A : Allocator} {reader : layout.Reader} {before heap' : Heap} {s : Lending}
  {gs : List Grant} {gss : List (List Grant)} {loan : Loan}

theorem live_subset (h : Accounts reader before s gss) : before.live ⊆ s.heap.live :=
  fun b hb => (h.granted.live b).mpr (Or.inl hb)

/-- The heap has changed without touching what was live. -/
theorem backs_evolve (h : Accounts reader before s gss) (hevolves : Evolves s.heap.live s.heap heap') :
    List.Forall₂ (Backs reader heap'.mem) s.loans gss :=
  backs_keep h.backs fun g hg a ha => hevolves.keeps g.block (h.granted.mem_live hg) a ha

/-- Nothing was handed out. -/
theorem refused (h : Accounts reader before s gss) (hgranted : Granted before.live gss.flatten heap')
    (hevolves : Evolves s.heap.live s.heap heap') : Accounts reader before ⟨heap', s.loans⟩ gss :=
  ⟨h.backs_evolve hevolves, hgranted, h.evolves.trans (hevolves.mono h.live_subset)⟩

/-- Something was handed out. -/
theorem lend (h : Accounts reader before s gss)
    (hgranted : Granted before.live (gss.flatten ++ gs) heap')
    (hevolves : Evolves s.heap.live s.heap heap') (hback : Backs reader heap'.mem loan gs) :
    Accounts reader before ⟨heap', s.loans ++ [loan]⟩ (gss ++ [gs]) := by
  refine ⟨backs_append (h.backs_evolve hevolves) hback, ?_,
    h.evolves.trans (hevolves.mono h.live_subset)⟩
  rwa [List.flatten_append, List.flatten_singleton]

theorem alloc (hA : A.Sound) (h : Accounts reader before s gss) {memTab : List MemRec}
    (hfits : ∀ r ∈ memTab, r.Fits) :
    ∃ gss', Accounts reader before (s.step A reader (.alloc memTab)) gss' := by
  rcases h.granted.allocFxn_cases hA hfits with ⟨memTab', heap', hrun, hgranted, hevolves⟩ |
    ⟨gs, heap', hrun, -, hgranted, hevolves⟩
  · simp only [Lending.step, hrun]
    exact ⟨gss, h.refused hgranted hevolves⟩
  · simp only [Lending.step, hrun]
    exact ⟨gss ++ [gs], h.lend hgranted hevolves rfl⟩

theorem getHandles (hA : A.Sound) (hlayout : layout.size.toNat + 8 < 2 ^ 32)
    (h : Accounts reader before s gss) {args : TiledArgs} (hargs : args.requested + 8 < 2 ^ 32) :
    ∃ gss', Accounts reader before (s.step A reader (.getHandles args)) gss' := by
  have hexact : args.size.toNat = args.requested := by
    rw [args.toNat_size, Nat.mod_eq_of_lt (by omega)]
  rcases h.granted.getHandles_on hA reader (hexact ▸ hargs) hlayout with
    ⟨heap', hrun, hgranted, hevolves⟩ |
    ⟨buffer, handle, heap', hrun, hsize, hsize', hgranted, hevolves, hread⟩
  · simp only [Lending.step, hrun]
    exact ⟨gss, h.refused hgranted hevolves⟩
  · simp only [Lending.step, hrun]
    refine ⟨gss ++ [[buffer, handle]], h.lend hgranted hevolves ?_⟩
    exact ⟨buffer, handle, rfl, rfl, rfl, by rw [hsize, hexact], hsize', hread⟩

theorem giveBack (hA : A.Sound) (h : Accounts reader before s gss) (i : ℕ) (args : TiledArgs) :
    ∃ gss', Accounts reader before (s.step A reader (.giveBack i args)) gss' := by
  cases hi : s.loans[i]? with
  | none =>
      simp only [Lending.step, hi]
      exact ⟨gss, h⟩
  | some loan =>
      obtain ⟨gs, gss', hback, hrest, hperm⟩ := backs_erase h.backs hi
      have hgranted := h.granted.perm hperm
      obtain ⟨hlive, hevolves⟩ := hback.giveBack hA hgranted.split args
      simp only [Lending.step, hi]
      refine ⟨gss', backs_keep hrest fun g hg a ha => ?_, hgranted.rest hlive hevolves,
        h.evolves.trans (hevolves.mono Finset.subset_union_left)⟩
      apply hevolves.keeps g.block _ a ha
      exact Finset.mem_union_right _ (List.mem_toFinset.mpr (List.mem_map_of_mem hg))

/-- Borrowers that keep to what they have borrowed do no harm. -/
theorem write (h : Accounts reader before s gss) {mem : Buffer} (hlegal : s.Legal (.write mem)) :
    Accounts reader before (s.step A reader (.write mem)) gss := by
  have hperm := payloads_perm h.backs
  have happart := (List.pairwise_append.mp (pairwise_apart h.backs h.granted)).2.2
  have hbuffer : ∀ loan ∈ s.loans, ∀ e ∈ loan.buffers,
      ∃ g ∈ gss.flatten, e = g.record.payload := by
    intro loan hloan e he
    have hmem := hperm.mem_iff.mp
      (List.mem_append_left _ (List.mem_flatMap.mpr ⟨loan, hloan, he⟩))
    obtain ⟨g, hg, heq⟩ := List.mem_map.mp hmem
    exact ⟨g, hg, heq.symm⟩
  refine ⟨?_, ?_, ?_⟩
  · apply backs_congr h.backs
    intro e he a ha
    apply hlegal a
    intro loan hloan e' he' ha'
    exact happart e' (List.mem_flatMap.mpr ⟨loan, hloan, he'⟩) e he a ha' ha
  · apply h.granted.written
    intro a ha
    apply hlegal a
    intro loan hloan e he ha'
    obtain ⟨g, hg, rfl⟩ := hbuffer loan hloan e he
    exact ha g hg ha'
  · apply h.evolves.write
    intro b hb a ha
    apply hlegal a
    intro loan hloan e he ha'
    obtain ⟨g, hg, rfl⟩ := hbuffer loan hloan e he
    exact h.granted.outside g hg b hb a (g.payload_within.holds ha') ha

theorem step (hA : A.Sound) (hlayout : layout.size.toNat + 8 < 2 ^ 32)
    (h : ∃ gss, Accounts reader before s gss) {action : HeapAction} (hlegal : s.Legal action) :
    ∃ gss, Accounts reader before (s.step A reader action) gss := by
  obtain ⟨gss, h⟩ := h
  cases action with
  | alloc memTab => exact h.alloc hA hlegal
  | getHandles args => exact h.getHandles hA hlayout hlegal
  | giveBack i args => exact h.giveBack hA i args
  | write mem => exact ⟨gss, h.write hlegal⟩

end Accounts

/-- After any sequence of tables and handles being taken, filled and given back, in any
order and with any pattern of refusals: each loan has blocks of its own that hold its
pieces, nothing else is live but what was live before, no two buffers overlap, no block
was freed that was not live, and what was live before has kept its contents. No size that is
asked for wraps around with its header, and borrowers write into their buffers only
(`Legal`). -/
theorem loans_accounted {A : Allocator} (hA : A.Sound) (reader : layout.Reader)
    (hlayout : layout.size.toNat + 8 < 2 ^ 32) (before : Heap) {actions : List HeapAction}
    (run : Run (step A reader) Legal ⟨before, []⟩ actions) :
    let s := final (step A reader) ⟨before, []⟩ actions
    (∃ blocks : List (List Block), blocks.flatten.Nodup ∧
      (∀ b, b ∈ s.heap.live ↔ b ∈ before.live ∨ b ∈ blocks.flatten) ∧
      List.Forall₂ (fun loan bs => List.Forall₂ (fun e (b : Block) => e.Within b.extent)
        (loan.buffers ++ loan.handles layout) bs) s.loans blocks) ∧
    (s.loans.flatMap Loan.buffers).Pairwise Extent.Apart ∧
    (∃ es, s.heap.events = before.events ++ es ∧ replay before.live es = some s.heap.live) ∧
    ∀ b ∈ before.live, ∀ a, b.extent.Holds a → s.heap.mem a = before.mem a := by
  intro s
  have h0 : ∃ gss, Accounts reader before ⟨before, []⟩ gss :=
    ⟨[], List.Forall₂.nil, .nil before, .refl _ _⟩
  obtain ⟨gss, h⟩ : ∃ gss, Accounts reader before s gss :=
    run.invariant (I := fun s => ∃ gss, Accounts reader before s gss) h0
      fun s action h hlegal => Accounts.step hA hlayout h hlegal
  have hblocks : (gss.map (List.map Grant.block)).flatten = gss.flatten.map Grant.block :=
    List.map_flatten.symm
  refine ⟨⟨gss.map (List.map Grant.block), ?_, ?_, ?_⟩, ?_, h.evolves.events, h.evolves.keeps⟩
  · rw [hblocks]
    exact h.granted.nodup
  · rw [hblocks]
    exact h.granted.live
  · rw [List.forall₂_map_right_iff]
    refine h.backs.imp fun loan gs hback => ?_
    rw [hback.payloads, List.forall₂_map_left_iff, List.forall₂_map_right_iff, List.forall₂_same]
    exact fun g _ => g.payload_within
  · exact (List.pairwise_append.mp (pairwise_apart h.backs h.granted)).1

/-- A codec and a handle are served, the codec goes first, and the handle after it. -/
def comeAndGo : List HeapAction :=
  [.alloc threeBuffers, .getHandles ⟨640, 480⟩, .alloc fourthTooLarge, .giveBack 0 ⟨0, 0⟩,
    .giveBack 0 ⟨1, 0⟩]

theorem loans_accounted_all_back :
    (final (step bump wordReader) ⟨.empty, []⟩ comeAndGo).heap.live = ∅ := by
  have run : Run (step bump wordReader) Legal ⟨.empty, []⟩ comeAndGo := by
    refine ⟨?_, ?_, ?_, trivial, trivial, trivial⟩
    · show ∀ r ∈ threeBuffers, r.Fits
      decide +kernel
    · show (⟨640, 480⟩ : TiledArgs).requested + 8 < 2 ^ 32
      decide
    · show ∀ r ∈ fourthTooLarge, r.Fits
      decide +kernel
  have hloans : (final (step bump wordReader) ⟨.empty, []⟩ comeAndGo).loans.length = 0 := by
    decide +kernel
  obtain ⟨⟨blocks, -, hlive, hback⟩, -⟩ :=
    loans_accounted bump_sound wordReader (by decide) .empty run
  rw [List.length_eq_zero_iff.mp hloans] at hback
  cases hback
  ext b
  rw [hlive b]
  simp [Heap.empty]

end Lending

end Libdce.Firmware
