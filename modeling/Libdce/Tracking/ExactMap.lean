import Libdce.Tracking.Ledger
import Libdce.Tracking.Tally

/-!
# Within its capacity the table is an exact map

As long as every registration finds room, the slot of a client stores exactly
the handles the client has open and counts them, and unused slots are empty.
The invariant relates the table to the ledger slot by slot; one lemma says what
replacing a slot has to establish, and each handler is an instance of it.
-/

namespace Libdce.Tracking

open Foundation.SlotArray Foundation.GuardedRuns

/-- The slot stores what the client has open, without duplicates, and its count
is the number of handles. -/
structure Client.Mirrors (c : Client) (l : Ledger) (p : Pid) : Prop where
  stored : ∀ k, occupied (c.cells k) = (l.held k p).val
  counted : c.refs.toNat = (l.held .engine p).card + (l.held .codec p).card

namespace Client.Mirrors

variable {c : Client} {l l' : Ledger} {p : Pid} {k : Kind} {h : Handle}

theorem congr (hm : c.Mirrors l p) (hheld : ∀ k, l'.held k p = l.held k p) : c.Mirrors l' p := by
  refine ⟨fun k => ?_, ?_⟩
  · rw [hm.stored, hheld]
  · rw [hm.counted, hheld, hheld]

/-- The count is that of the arrays. -/
theorem countsCells (hm : c.Mirrors l p) : c.Counted := by
  unfold Counted
  rw [hm.stored, hm.stored]
  exact hm.counted

theorem of_countsCells (hstored : ∀ k, occupied (c.cells k) = (l.held k p).val)
    (hc : c.Counted) : c.Mirrors l p := by
  refine ⟨hstored, ?_⟩
  unfold Counted at hc
  rw [hc, hstored, hstored]
  rfl

/-- Recording a new handle where a cell is free. -/
theorem store (hm : c.Mirrors l p) (hroom : ∃ j, c.cells k j = 0) (hh : h ≠ 0)
    (hnew : h ∉ l.held k p)
    (hheld : ∀ k', l'.held k' p = if k' = k then insert h (l.held k p) else l.held k' p) :
    (c.store k h).Mirrors l' p := by
  refine of_countsCells (fun k' => ?_) (hm.countsCells.store hroom hh)
  rw [store_cells, hheld]
  by_cases hk : k' = k
  · rw [if_pos hk, if_pos hk, occupied_store hroom hh, hm.stored k,
      Finset.insert_val_of_notMem hnew]
  · rw [if_neg hk, if_neg hk, hm.stored k']

/-- Dropping a handle the client has open. -/
theorem drop (hm : c.Mirrors l p) (hmem : h ∈ l.held k p)
    (hheld : ∀ k', l'.held k' p = if k' = k then (l.held k p).erase h else l.held k' p) :
    (c.drop k h).Mirrors l' p := by
  have hcell : h ∈ occupied (c.cells k) := by
    rw [hm.stored k]
    exact hmem
  refine of_countsCells (fun k' => ?_) (hm.countsCells.drop hcell)
  rw [drop_cells, hheld]
  by_cases hk : k' = k
  · rw [if_pos hk, if_pos hk, occupied_clear, hm.stored k, Finset.erase_val]
  · rw [if_neg hk, if_neg hk, hm.stored k']

/-- A slot whose count is zero stores nothing, and its client has nothing open. -/
theorem empty_of_refs (hm : c.Mirrors l p) (hrefs : c.refs = 0) (k : Kind) :
    c.cells k = 0 ∧ l.held k p = ∅ := by
  have hcells := hm.countsCells.cells_eq_zero hrefs k
  refine ⟨hcells, ?_⟩
  rw [← Finset.val_eq_zero, ← hm.stored k, hcells, occupied_zero]

theorem mem_cells_iff (hm : c.Mirrors l p) :
    (h ≠ 0 ∧ ∃ j, c.cells k j = h) ↔ ⟨k, p, h⟩ ∈ l.opened := by
  rw [← mem_occupied, hm.stored k, Finset.mem_val, Ledger.mem_held]

theorem mem_releases_iff (hm : c.Mirrors l p) :
    ⟨k, h⟩ ∈ c.releases ↔ ⟨k, p, h⟩ ∈ l.opened := by
  rw [Client.mem_releases, hm.stored k, Finset.mem_val, Ledger.mem_held]

end Client.Mirrors

/-- The table is the exact map from clients to their open handles. -/
structure Exact (t : Clients) (l : Ledger) : Prop where
  unique : UniquePids t
  oneOwner : l.OneOwner
  nonzero : ∀ x ∈ l.opened, x.owner ≠ 0 ∧ x.handle ≠ 0
  covered : ∀ x ∈ l.opened, ∃ i, getClient t x.owner = some i
  mirrors : ∀ i, (t i).pid ≠ 0 → (t i).Mirrors l (t i).pid
  unused : ∀ i, (t i).pid = 0 → ∀ k, (t i).cells k = 0

namespace Exact

variable {t : Clients} {l l' : Ledger} {p : Pid} {i : Fin 10} {c : Client} {k : Kind} {h : Handle}

theorem zero : Exact Clients.zero Ledger.empty where
  unique := uniquePids_zero
  oneOwner := Ledger.oneOwner_empty
  nonzero := fun _ hx => absurd hx (Finset.notMem_empty _)
  covered := fun _ hx => absurd hx (Finset.notMem_empty _)
  mirrors := fun _ hi => absurd rfl hi
  unused := fun _ _ k => by cases k <;> rfl

theorem mirrors_slot (hw : Exact t l) (hp : p ≠ 0) (hi : getClient t p = some i) :
    (t i).Mirrors l p := by
  have hpid := pid_of_getClient hi
  have hm := hw.mirrors i (hpid ▸ hp)
  rwa [hpid] at hm

/-- A client without a slot has nothing open. -/
theorem held_of_absent (hw : Exact t l) (hi : getClient t p = none) (k : Kind) :
    l.held k p = ∅ := by
  rw [Finset.eq_empty_iff_forall_notMem]
  intro h hmem
  obtain ⟨i, hfound⟩ := hw.covered _ (Ledger.mem_held.mp hmem)
  rw [hi] at hfound
  cases hfound

/-- Replacing the slot of a client, or giving it an unused one, while the ledger
changes for this client only. -/
theorem replace (hw : Exact t l) (hp : p ≠ 0) (hslot : SlotFor t p i)
    (hl : l'.OneOwner) (hnonzero : ∀ x ∈ l'.opened, x.owner ≠ 0 ∧ x.handle ≠ 0)
    (hothers : ∀ q ≠ p, ∀ k, l'.held k q = l.held k q)
    (hc : c.pid = p ∧ c.Mirrors l' p ∨
      c.pid = 0 ∧ (∀ k, c.cells k = 0) ∧ ∀ k, l'.held k p = ∅) :
    Exact (Function.update t i c) l' := by
  have hnew : c.pid = p ∨ c.pid = 0 := hc.imp And.left And.left
  refine ⟨hslot.uniquePids hw.unique hnew, hl, hnonzero, ?_, ?_, ?_⟩
  · intro x hx
    by_cases hxp : x.owner = p
    · rcases hc with ⟨hpid, _⟩ | ⟨_, _, hempty⟩
      · exact ⟨i, hxp ▸ hslot.getClient_kept hpid⟩
      · have hmem : x.handle ∈ l'.held x.kind p := by
          rw [Ledger.mem_held, ← hxp]
          exact hx
        rw [hempty] at hmem
        exact absurd hmem (Finset.notMem_empty _)
    · have hmem : x.handle ∈ l.held x.kind x.owner := by
        rw [← hothers _ hxp, Ledger.mem_held]
        exact hx
      obtain ⟨j, hj⟩ := hw.covered _ (Ledger.mem_held.mp hmem)
      exact ⟨j, (hslot.getClient_other hnew hxp (hnonzero x hx).1).trans hj⟩
  · refine (Function.forall_update_iff t fun _ x => x.pid ≠ 0 → x.Mirrors l' x.pid).mpr ⟨?_, ?_⟩
    · intro hused
      rcases hc with ⟨hpid, hm⟩ | ⟨hpid, _⟩
      · rwa [hpid]
      · exact absurd hpid hused
    · intro j hji hj
      exact (hw.mirrors j hj).congr (hothers _ (hslot.elsewhere hw.unique hp hji))
  · refine (Function.forall_update_iff t fun _ x => x.pid = 0 → ∀ k, x.cells k = 0).mpr
      ⟨?_, fun j _ => hw.unused j⟩
    intro hunused
    rcases hc with ⟨hpid, _⟩ | ⟨_, hcells, _⟩
    · exact absurd (hpid.symm.trans hunused) hp
    · exact hcells

/-- A handler that unregisters and releases a handle its client has open. -/
theorem release (hw : Exact t l) (hp : p ≠ 0) (hmem : ⟨k, p, h⟩ ∈ l.opened) :
    Exact (dceUnregister k t p h) (l.release ⟨k, h⟩) := by
  obtain ⟨i, hi⟩ := hw.covered _ hmem
  have hheld : ∀ k', (l.release ⟨k, h⟩).held k' p =
      if k' = k then (l.held k p).erase h else l.held k' p := by
    intro k'
    rw [Ledger.held_release]
    by_cases hk : k' = k
    · simp [hk]
    · simp [hk]
  have hdrop := (hw.mirrors_slot hp hi).drop (Ledger.mem_held.mpr hmem) hheld
  rw [dceUnregister_found k h hi]
  refine hw.replace hp (Or.inl hi) (hw.oneOwner.release _)
    (fun x hx => hw.nonzero x (Ledger.mem_release.mp hx).1) ?_ ?_
  · exact fun q hq k' => hw.oneOwner.held_release_other hmem hq k'
  · by_cases hfreed : k = .engine ∧ ((t i).drop k h).refs = 0
    · right
      refine ⟨by rw [Client.settle_pid, if_pos hfreed], fun k' => ?_, fun k' => ?_⟩
      · rw [Client.settle_cells]
        exact (hdrop.empty_of_refs hfreed.2 k').1
      · exact (hdrop.empty_of_refs hfreed.2 k').2
    · left
      refine ⟨?_, fun k' => ?_, ?_⟩
      · rw [Client.settle_pid, if_neg hfreed, Client.drop_pid, pid_of_getClient hi]
      · rw [Client.settle_cells]
        exact hdrop.stored k'
      · rw [Client.settle_refs]
        exact hdrop.counted

/-- The obit of a client releases nothing of the others. -/
theorem held_obit_other {q : Pid} (hw : Exact t l) (hp : p ≠ 0) (hq : q ≠ p) (k : Kind) :
    (l.releaseAll (obitCalls t p)).held k q = l.held k q := by
  refine Ledger.held_releaseAll_of_disjoint fun h hmem hcall => hq ?_
  cases hi : getClient t p with
  | none => simp [obitCalls, hi] at hcall
  | some i =>
      simp only [obitCalls, hi] at hcall
      exact hw.oneOwner.owner_eq (Ledger.mem_held.mp hmem)
        ((hw.mirrors_slot hp hi).mem_releases_iff.mp hcall)

/-- The obit of a client: its slot is emptied and all it had open is released. -/
theorem obit (hw : Exact t l) (hp : p ≠ 0) :
    Exact (dceCleanupCb ⟨t, []⟩ .procObit p).clients (l.releaseAll (obitCalls t p)) := by
  cases hi : getClient t p with
  | none =>
      rw [dceCleanupCb_absent hi]
      simp only [obitCalls, hi]
      exact hw
  | some i =>
      have hm := hw.mirrors_slot hp hi
      have hclients : (dceCleanupCb ⟨t, []⟩ .procObit p).clients =
          Function.update t i (t i).drained :=
        dceCleanupCb_clients (s := ⟨t, []⟩) hi hm.countsCells.drainsClean
      have hempty : ∀ k, (l.releaseAll (t i).releases).held k p = ∅ := by
        intro k
        refine Ledger.held_releaseAll_of_subset fun h hmem => ?_
        exact hm.mem_releases_iff.mpr (Ledger.mem_held.mp hmem)
      rw [hclients]
      simp only [obitCalls, hi]
      refine hw.replace hp (Or.inl hi) (hw.oneOwner.releaseAll _)
        (fun x hx => hw.nonzero x (Ledger.mem_releaseAll.mp hx).1) ?_ ?_
      · intro q hq k
        have hother := hw.held_obit_other hp hq k
        simpa only [obitCalls, hi] using hother
      · rcases (t i).drained_pid_or with hpid | hpid
        · left
          refine ⟨by rw [hpid, pid_of_getClient hi], fun k => ?_, ?_⟩
          · rw [Client.drained_cells, occupied_zero, hempty]
            rfl
          · rw [hm.countsCells.drained_refs_eq_zero, hempty, hempty]
            rfl
        · exact Or.inr ⟨hpid, fun k => Client.drained_cells k, hempty⟩

/-- A handle recorded in the slot its client has. -/
theorem record (hw : Exact t l) (hp : p ≠ 0) (hi : getClient t p = some i)
    (hroom : ∃ j, (t i).cells k j = 0) (hh : h ≠ 0) (hfresh : ¬l.IsOpen k h)
    (home : Finset (Handle × Handle)) :
    Exact (Function.update t i ((t i).store k h)) ⟨insert ⟨k, p, h⟩ l.opened, home⟩ := by
  have hheld := Ledger.held_insert l k p h home
  have hnew : h ∉ l.held k p := fun hmem => hfresh (Ledger.isOpen_of_mem (Ledger.mem_held.mp hmem))
  refine hw.replace hp (Or.inl hi) (hw.oneOwner.insert hfresh home) ?_ ?_ (Or.inl ⟨?_, ?_⟩)
  · exact Finset.forall_mem_insert _ _ _ |>.mpr ⟨⟨hp, hh⟩, hw.nonzero⟩
  · intro q hq k'
    rw [hheld, if_neg fun heq => hq heq.2]
  · rw [Client.store_pid, pid_of_getClient hi]
  · refine (hw.mirrors_slot hp hi).store hroom hh hnew fun k' => ?_
    simp only [hheld, and_true]

/-- An engine recorded for a client that takes over an unused slot. -/
theorem occupy (hw : Exact t l) (hp : p ≠ 0) (hnone : getClient t p = none)
    (hfree : getClient t 0 = some i) (hh : h ≠ 0) (hfresh : ¬l.IsOpen .engine h)
    (home : Finset (Handle × Handle)) :
    Exact (Function.update t i ((t i).occupy p h)) ⟨insert ⟨.engine, p, h⟩ l.opened, home⟩ := by
  have hheld := Ledger.held_insert l .engine p h home
  have hpid := pid_of_getClient hfree
  have hcells := hw.unused i hpid
  refine hw.replace hp (Or.inr ⟨hnone, hpid⟩) (hw.oneOwner.insert hfresh home) ?_ ?_
    (Or.inl ⟨Client.occupy_pid .., ?_, ?_⟩)
  · exact Finset.forall_mem_insert _ _ _ |>.mpr ⟨⟨hp, hh⟩, hw.nonzero⟩
  · intro q hq k'
    rw [hheld, if_neg fun heq => hq heq.2]
  · intro k'
    rw [Client.occupy_cells, hheld, hw.held_of_absent hnone, hw.held_of_absent hnone]
    by_cases hk : k' = .engine
    · rw [if_pos hk, if_pos ⟨hk, rfl⟩, hcells,
        occupied_update_free (f := 0) (i := 0) rfl hh, occupied_zero]
      rfl
    · rw [if_neg hk, if_neg fun heq => hk heq.1, hcells, occupied_zero]
      rfl
  · rw [Client.occupy_refs, hheld, hheld, hw.held_of_absent hnone, hw.held_of_absent hnone,
      if_pos ⟨rfl, rfl⟩, if_neg fun heq => Kind.noConfusion heq.1]
    rfl

end Exact

/-- The registration that an event brings about finds room: a null entry in the
slot of the client, or an unused slot for the first engine of a client that has
none. -/
@[reducible] def HasRoom (t : Clients) : Event → Prop
  | .engineOpen pid engine => engine ≠ 0 →
      (∃ c, getClient t pid = some c ∧ ∃ j, (t c).engines j = 0) ∨
        getClient t pid = none ∧ ∃ c, getClient t 0 = some c
  | .viddec3Create pid _ codec => codec ≠ 0 →
      ∃ c, getClient t pid = some c ∧ ∃ j, (t c).codecs j = 0
  | _ => True

instance (t : Clients) : DecidablePred (HasRoom t) := Event.decidable

/-- One event that finds room keeps the table exact. -/
theorem Exact.step {w : World} {ev : Event} (hw : Exact w.clients w.ledger)
    (hlegal : w.Legal ev) (hroom : HasRoom w.clients ev) :
    Exact (w.step ev).clients (w.step ev).ledger := by
  cases ev with
  | engineOpen pid engine =>
      obtain ⟨hp, hfresh⟩ := hlegal
      by_cases he : engine = 0
      · rwa [he, World.step_engineOpen_null]
      · have hfresh := hfresh.resolve_left he
        have hroom := hroom he
        rw [World.step_engineOpen _ _ he]
        rcases hroom with ⟨i, hi, hcell⟩ | ⟨hnone, i, hfree⟩
        · simp only [dceRegisterEngine, hi]
          exact hw.record (k := .engine) hp hi hcell he hfresh _
        · simp only [dceRegisterEngine, hnone, hfree]
          exact hw.occupy hp hnone hfree he hfresh _
  | engineClose pid engine => exact hw.release hlegal.1 hlegal.2
  | viddec3Create pid engine codec =>
      obtain ⟨hp, _, hfresh⟩ := hlegal
      by_cases hcodec : codec = 0
      · rwa [hcodec, World.step_viddec3Create_null]
      · have hfresh := hfresh.resolve_left hcodec
        obtain ⟨i, hi, hcell⟩ := hroom hcodec
        rw [World.step_viddec3Create _ _ _ hcodec]
        simp only [dceRegisterCodec, hi]
        exact hw.record (k := .codec) hp hi hcell hcodec hfresh _
  | viddec3Control pid codec => exact hw
  | viddec3Process pid codec => exact hw
  | viddec3Delete pid codec => exact hw.release hlegal.1 hlegal.2
  | obit pid =>
      rw [World.step_obit _ _ hlegal hw.unique]
      exact hw.obit hlegal

/-- A run in which every registration finds room keeps the table exact. -/
theorem exact_of_hasRoom {evs : List Event}
    (run : Run World.step (fun w ev => w.Legal ev ∧ HasRoom w.clients ev) World.zero evs) :
    Exact (final World.step World.zero evs).clients (final World.step World.zero evs).ledger :=
  run.invariant (I := fun w => Exact w.clients w.ledger) Exact.zero
    fun _ _ hw h => hw.step h.1 h.2

end Libdce.Tracking
