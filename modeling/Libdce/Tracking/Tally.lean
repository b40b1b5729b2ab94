import Libdce.Tracking.Cleanup

/-!
# What the slots record

The handles that the slot of a client records form a multiset: nothing is said
here about what is open in Codec Engine. While every count agrees with its
arrays, each function of the table acts on these multisets as expected, and a
slot is given up only when it records nothing.

## Implementation notes

The counts of clients that are gone are left out: a request of a dead client may
still be served after its slot was drained.
-/

namespace Libdce.Tracking

open Foundation.SlotArray

/-- The handles of a kind that the slot of a client records. -/
def recorded (t : Clients) (k : Kind) (p : Pid) : Multiset Handle :=
  match getClient t p with
  | some c => occupied ((t c).cells k)
  | none => 0

/-- The registration function of each kind. -/
def dceRegister : Kind → Clients → Pid → Handle → Clients
  | .engine => dceRegisterEngine
  | .codec => dceRegisterCodec

/-- A handle of the kind can be recorded for the client: its slot has a null
entry, or it has no slot and its first engine finds an unused one. -/
@[reducible] def RoomFor (t : Clients) (p : Pid) : Kind → Prop
  | .engine => (∃ c, getClient t p = some c ∧ ∃ j, (t c).engines j = 0) ∨
      getClient t p = none ∧ ∃ c, getClient t 0 = some c
  | .codec => ∃ c, getClient t p = some c ∧ ∃ j, (t c).codecs j = 0

/-- The number of entries of a slot. -/
def Client.filled (c : Client) : ℕ :=
  (occupied (c.cells .engine)).card + (occupied (c.cells .codec)).card

/-- The count of the slot is the number of its entries. -/
def Client.Counted (c : Client) : Prop :=
  c.refs.toNat = (occupied (c.cells .engine)).card + (occupied (c.cells .codec)).card

namespace Client

variable {c c' : Client} {k : Kind} {h : Handle}

theorem counted_iff : c.Counted ↔ c.refs.toNat = c.filled := Iff.rfl

/-- A change in one of the arrays shows in the number of entries. -/
theorem filled_change (hothers : ∀ l ≠ k, c'.cells l = c.cells l) :
    c'.filled + (occupied (c.cells k)).card = c.filled + (occupied (c'.cells k)).card := by
  unfold filled
  cases k with
  | engine =>
      rw [hothers .codec (by decide)]
      omega
  | codec =>
      rw [hothers .engine (by decide)]
      omega

theorem filled_store (c : Client) (k : Kind) (h : Handle) :
    (c.store k h).filled + (occupied (c.cells k)).card =
      c.filled + (occupied (replaceFirst (c.cells k) 0 h)).card := by
  have hchange : (c.store k h).filled + (occupied (c.cells k)).card =
      c.filled + (occupied ((c.store k h).cells k)).card :=
    filled_change fun l hl => by rw [store_cells, if_neg hl]
  rwa [store_cells, if_pos rfl] at hchange

theorem filled_drop (c : Client) (k : Kind) (h : Handle) :
    (c.drop k h).filled + (occupied (c.cells k)).card =
      c.filled + (occupied (replaceFirst (c.cells k) h 0)).card := by
  have hchange : (c.drop k h).filled + (occupied (c.cells k)).card =
      c.filled + (occupied ((c.drop k h).cells k)).card :=
    filled_change fun l hl => by rw [drop_cells, if_neg hl]
  rwa [drop_cells, if_pos rfl] at hchange

/-- Dropping an entry leaves one entry less. -/
theorem filled_drop_of_mem (hmem : h ∈ occupied (c.cells k)) :
    (c.drop k h).filled + 1 = c.filled := by
  have hpos : 0 < (occupied (c.cells k)).card := Multiset.card_pos_iff_exists_mem.mpr ⟨h, hmem⟩
  have hdrop := c.filled_drop k h
  rw [occupied_clear, Multiset.card_erase_of_mem hmem, Nat.pred_eq_sub_one] at hdrop
  omega

/-- A slot without entries has only null cells. -/
theorem cells_of_filled (hc : c.filled = 0) (k : Kind) : c.cells k = 0 := by
  unfold filled at hc
  rw [← occupied_eq_zero_iff, ← Multiset.card_eq_zero]
  cases k <;> omega

theorem Counted.refs_le (hc : c.Counted) : c.refs.toNat ≤ 20 := by
  have hengines := card_occupied_le (c.cells .engine)
  have hcodecs := card_occupied_le (c.cells .codec)
  unfold Counted at hc
  omega

theorem Counted.store (hc : c.Counted) (hroom : ∃ j, c.cells k j = 0) (hh : h ≠ 0) :
    (c.store k h).Counted := by
  have hle := hc.refs_le
  have hstore := c.filled_store k h
  rw [occupied_store hroom hh, Multiset.card_cons] at hstore
  rw [counted_iff] at hc ⊢
  rw [store_refs, Word.toNat_succ (by omega)]
  omega

theorem Counted.drop (hc : c.Counted) (hmem : h ∈ occupied (c.cells k)) :
    (c.drop k h).Counted := by
  have hdrop := filled_drop_of_mem hmem
  rw [counted_iff] at hc ⊢
  rw [drop_refs, Word.toNat_pred (by omega)]
  omega

/-- A slot whose count is zero records nothing. -/
theorem Counted.cells_eq_zero (hc : c.Counted) (hrefs : c.refs = 0) (k : Kind) :
    c.cells k = 0 := by
  rw [counted_iff, (Word.eq_zero_iff _).mp hrefs] at hc
  exact cells_of_filled hc.symm k

theorem Counted.drainsClean (hc : c.Counted) : c.DrainsClean := by
  have hcodecs : (entries c.codecs).length = (occupied (c.cells .codec)).card := rfl
  have hengines : (entries c.engines).length = (occupied (c.cells .engine)).card := rfl
  have hle := card_occupied_le (c.cells .codec)
  unfold Counted at hc
  refine Or.inr ?_
  rw [hcodecs, hengines, BitVec.toNat_sub_of_le, BitVec.toNat_ofNat]
  · omega
  · rw [BitVec.le_def, BitVec.toNat_ofNat]
    omega

/-- Draining a slot brings its count to zero. -/
theorem Counted.drained_refs_eq_zero (hc : c.Counted) : c.drained.refs = 0 := by
  have hcodecs : (entries c.codecs).length = (occupied (c.cells .codec)).card := rfl
  have hengines : (entries c.engines).length = (occupied (c.cells .engine)).card := rfl
  have hle := card_occupied_le (c.cells .codec)
  have hle' := card_occupied_le (c.cells .engine)
  unfold Counted at hc
  rw [drained_refs, hcodecs, hengines]
  bv_omega

theorem mem_releases : ⟨k, h⟩ ∈ c.releases ↔ h ∈ occupied (c.cells k) := by
  cases k
  · simp [releases, cells]
  · simp [releases, cells]

end Client

section Recorded

variable {t : Clients} {k : Kind} {p q : Pid} {i : Fin 10} {c : Client} {h : Handle}

theorem recorded_of_found (hi : getClient t p = some i) :
    recorded t k p = occupied ((t i).cells k) := by
  simp only [recorded, hi]

theorem recorded_of_absent (hi : getClient t p = none) : recorded t k p = 0 := by
  simp only [recorded, hi]

theorem found_of_mem_recorded (hmem : h ∈ recorded t k p) : ∃ i, getClient t p = some i := by
  cases hi : getClient t p with
  | some i => exact ⟨i, rfl⟩
  | none =>
      rw [recorded_of_absent hi] at hmem
      exact absurd hmem (Multiset.notMem_zero h)

/-- The obit of a client releases what its slot records. -/
theorem mem_obitCalls : ⟨k, h⟩ ∈ obitCalls t p ↔ h ∈ recorded t k p := by
  cases hi : getClient t p with
  | some i => simp only [obitCalls, recorded, hi, Client.mem_releases]
  | none => simp [obitCalls, recorded, hi]

/-- Writing a slot changes what is recorded for its client only. -/
theorem SlotFor.recorded_update (hslot : SlotFor t p i) (ht : UniquePids t) (hp : p ≠ 0)
    (hc : c.pid = p ∨ c.pid = 0 ∧ ∀ k, c.cells k = 0) (hq : q ≠ 0) (k : Kind) :
    recorded (Function.update t i c) k q =
      if q = p then occupied (c.cells k) else recorded t k q := by
  by_cases hqp : q = p
  · subst q
    rw [if_pos rfl]
    rcases hc with hpid | ⟨hpid, hcells⟩
    · rw [recorded_of_found (hslot.getClient_kept hpid), Function.update_self]
    · rw [recorded_of_absent (hslot.getClient_freed ht hp hpid), hcells, occupied_zero]
  · rw [if_neg hqp]
    have hfind := hslot.getClient_other (hc.imp_right And.left) hqp hq
    cases hj : getClient t q with
    | none => rw [recorded_of_absent hj, recorded_of_absent (hfind.trans hj)]
    | some j =>
        have hji : j ≠ i := by
          rintro rfl
          have hpid := pid_of_getClient hj
          exact hslot.pid_or.elim (fun h => hqp (hpid.symm.trans h)) fun h => hq (hpid.symm.trans h)
        rw [recorded_of_found hj, recorded_of_found (hfind.trans hj), Function.update_of_ne hji]

end Recorded

/-- Unused slots record nothing, counts agree with the arrays, and nothing is
recorded for clients that are gone. -/
structure Balanced (t : Clients) (gone : Finset Pid) : Prop where
  unique : UniquePids t
  unused : ∀ i, (t i).pid = 0 → ∀ k, (t i).cells k = 0
  counted : ∀ i, (t i).pid ≠ 0 → (t i).pid ∉ gone → (t i).Counted
  emptied : ∀ i, (t i).pid ∈ gone → ∀ k, (t i).cells k = 0

namespace Balanced

variable {t : Clients} {gone gone' : Finset Pid} {p : Pid} {i : Fin 10} {c : Client} {k : Kind}
  {h : Handle}

theorem zero : Balanced Clients.zero ∅ where
  unique := uniquePids_zero
  unused := fun _ _ k => by cases k <;> rfl
  counted := fun _ hi => absurd rfl hi
  emptied := fun _ hi => absurd hi (Finset.notMem_empty _)

theorem counted_of_found (hb : Balanced t gone) (hp : p ≠ 0) (hgone : p ∉ gone)
    (hi : getClient t p = some i) : (t i).Counted := by
  have hpid := pid_of_getClient hi
  exact hb.counted i (hpid ▸ hp) (hpid ▸ hgone)

theorem recorded_gone (hb : Balanced t gone) (hgone : p ∈ gone) (k : Kind) :
    recorded t k p = 0 := by
  cases hi : getClient t p with
  | none => exact recorded_of_absent hi
  | some i =>
      rw [recorded_of_found hi, hb.emptied i (by rwa [pid_of_getClient hi]), occupied_zero]

/-- Writing the slot of a client; the client may be added to those gone. -/
theorem replace (hb : Balanced t gone) (hp : p ≠ 0) (hslot : SlotFor t p i)
    (hgone : ∀ q, q ≠ p → (q ∈ gone' ↔ q ∈ gone))
    (hc : c.pid = p ∧ (p ∉ gone' → c.Counted) ∧ (p ∈ gone' → ∀ k, c.cells k = 0) ∨
      c.pid = 0 ∧ ∀ k, c.cells k = 0) :
    Balanced (Function.update t i c) gone' := by
  have hnew : c.pid = p ∨ c.pid = 0 := hc.imp And.left And.left
  refine ⟨hslot.uniquePids hb.unique hnew, ?_, ?_, ?_⟩
  · refine (Function.forall_update_iff t fun _ x => x.pid = 0 → ∀ k, x.cells k = 0).mpr
      ⟨?_, fun j _ => hb.unused j⟩
    intro hunused
    rcases hc with ⟨hpid, _⟩ | ⟨_, hcells⟩
    · exact absurd (hpid.symm.trans hunused) hp
    · exact hcells
  · refine (Function.forall_update_iff t fun _ x => x.pid ≠ 0 → x.pid ∉ gone' → x.Counted).mpr
      ⟨?_, ?_⟩
    · intro hused hlive
      rcases hc with ⟨hpid, hcounted, _⟩ | ⟨hpid, _⟩
      · exact hcounted (hpid ▸ hlive)
      · exact absurd hpid hused
    · intro j hji hj hlive
      have hother := hgone _ (hslot.elsewhere hb.unique hp hji)
      exact hb.counted j hj (mt hother.mpr hlive)
  · refine (Function.forall_update_iff t fun _ x => x.pid ∈ gone' → ∀ k, x.cells k = 0).mpr
      ⟨?_, ?_⟩
    · intro hmem
      rcases hc with ⟨hpid, _, hcells⟩ | ⟨_, hcells⟩
      · exact hcells (hpid ▸ hmem)
      · exact hcells
    · intro j hji hj
      exact hb.emptied j ((hgone _ (hslot.elsewhere hb.unique hp hji)).mp hj)

/-- A handle is stored in the slot that its client has. -/
theorem register_found {i : Fin 10} (hb : Balanced t gone) (hp : p ≠ 0) (hgone : p ∉ gone)
    (hh : h ≠ 0) (hi : getClient t p = some i) (hcell : ∃ j, (t i).cells k j = 0) :
    Balanced (Function.update t i ((t i).store k h)) gone ∧
      ∀ q ≠ 0, ∀ k', recorded (Function.update t i ((t i).store k h)) k' q =
        if k' = k ∧ q = p then h ::ₘ recorded t k p else recorded t k' q := by
  have hpid : ((t i).store k h).pid = p := by
    rw [Client.store_pid, pid_of_getClient hi]
  have hcounted := (hb.counted_of_found hp hgone hi).store hcell hh
  refine ⟨hb.replace hp (Or.inl hi) (fun _ _ => Iff.rfl)
    (Or.inl ⟨hpid, fun _ => hcounted, fun hmem => absurd hmem hgone⟩), ?_⟩
  intro q hq k'
  rw [SlotFor.recorded_update (Or.inl hi) hb.unique hp (Or.inl hpid) hq, Client.store_cells]
  by_cases hqp : q = p
  · by_cases hk : k' = k
    · rw [if_pos hqp, if_pos hk, if_pos ⟨hk, hqp⟩, occupied_store hcell hh, recorded_of_found hi]
    · rw [if_pos hqp, if_neg hk, if_neg (fun h => hk h.1), hqp, recorded_of_found hi]
  · rw [if_neg hqp, if_neg (fun h => hqp h.2)]

/-- The first engine of a client is stored in a slot that was free. -/
theorem register_fresh {i : Fin 10} (hb : Balanced t gone) (hp : p ≠ 0) (hgone : p ∉ gone)
    (hh : h ≠ 0) (hnone : getClient t p = none) (hfree : getClient t 0 = some i) :
    Balanced (Function.update t i ((t i).occupy p h)) gone ∧
      ∀ q ≠ 0, ∀ k', recorded (Function.update t i ((t i).occupy p h)) k' q =
        if k' = .engine ∧ q = p then h ::ₘ recorded t .engine p else recorded t k' q := by
  have hslot : SlotFor t p i := Or.inr ⟨hnone, pid_of_getClient hfree⟩
  have hcells := hb.unused i (pid_of_getClient hfree)
  have hengines : occupied (((t i).occupy p h).cells .engine) = {h} := by
    rw [Client.occupy_cells, if_pos rfl, hcells,
      occupied_update_free (f := 0) (i := 0) rfl hh, occupied_zero]
    rfl
  have hcodecs : occupied (((t i).occupy p h).cells .codec) = 0 := by
    rw [Client.occupy_cells, if_neg (by decide), hcells, occupied_zero]
  have hcounted : ((t i).occupy p h).Counted := by
    rw [Client.Counted, hengines, hcodecs]
    rfl
  refine ⟨hb.replace hp hslot (fun _ _ => Iff.rfl)
    (Or.inl ⟨rfl, fun _ => hcounted, fun hmem => absurd hmem hgone⟩), ?_⟩
  intro q hq k'
  rw [hslot.recorded_update hb.unique hp (Or.inl rfl) hq]
  by_cases hqp : q = p
  · subst q
    rw [if_pos rfl, recorded_of_absent hnone]
    cases k' with
    | engine => rw [hengines, if_pos ⟨rfl, rfl⟩]; rfl
    | codec => rw [hcodecs, if_neg (fun h => nomatch h.1), recorded_of_absent hnone]
  · rw [if_neg hqp, if_neg (fun h => hqp h.2)]

/-- Registering a handle for which there is room records it. -/
theorem register (hb : Balanced t gone) (hp : p ≠ 0) (hgone : p ∉ gone) (hroom : RoomFor t p k)
    (hh : h ≠ 0) :
    Balanced (dceRegister k t p h) gone ∧
      ∀ q ≠ 0, ∀ k', recorded (dceRegister k t p h) k' q =
        if k' = k ∧ q = p then h ::ₘ recorded t k p else recorded t k' q := by
  cases k with
  | engine =>
      rcases hroom with ⟨i, hi, hcell⟩ | ⟨hnone, i, hfree⟩
      · simp only [dceRegister, dceRegisterEngine, hi]
        exact hb.register_found hp hgone hh hi hcell
      · simp only [dceRegister, dceRegisterEngine, hnone, hfree]
        exact hb.register_fresh hp hgone hh hnone hfree
  | codec =>
      obtain ⟨i, hi, hcell⟩ := hroom
      simp only [dceRegister, dceRegisterCodec, hi]
      exact hb.register_found hp hgone hh hi hcell

/-- Unregistering a recorded handle removes one copy of it. -/
theorem unregister (hb : Balanced t gone) (hp : p ≠ 0) (hgone : p ∉ gone)
    (hmem : h ∈ recorded t k p) :
    Balanced (dceUnregister k t p h) gone ∧
      ∀ q ≠ 0, ∀ k', recorded (dceUnregister k t p h) k' q =
        if k' = k ∧ q = p then (recorded t k p).erase h else recorded t k' q := by
  obtain ⟨i, hi⟩ := found_of_mem_recorded hmem
  rw [recorded_of_found hi] at hmem
  have hcounted := (hb.counted_of_found hp hgone hi).drop hmem
  have hc : (((t i).drop k h).settle k).pid = p ∧
        (p ∉ gone → (((t i).drop k h).settle k).Counted) ∧
        (p ∈ gone → ∀ l, (((t i).drop k h).settle k).cells l = 0) ∨
      (((t i).drop k h).settle k).pid = 0 ∧ ∀ l, (((t i).drop k h).settle k).cells l = 0 := by
    by_cases hfreed : k = .engine ∧ ((t i).drop k h).refs = 0
    · right
      refine ⟨by rw [Client.settle_pid, if_pos hfreed], fun l => ?_⟩
      rw [Client.settle_cells]
      exact hcounted.cells_eq_zero hfreed.2 l
    · left
      refine ⟨?_, fun _ => ?_, fun hmem => absurd hmem hgone⟩
      · rw [Client.settle_pid, if_neg hfreed, Client.drop_pid, pid_of_getClient hi]
      · rw [Client.Counted, Client.settle_refs, Client.settle_cells, Client.settle_cells]
        exact hcounted
  rw [dceUnregister_found k h hi]
  refine ⟨hb.replace hp (Or.inl hi) (fun _ _ => Iff.rfl) hc, fun q hq k' => ?_⟩
  rw [SlotFor.recorded_update (Or.inl hi) hb.unique hp (hc.imp_left And.left) hq,
    Client.settle_cells, Client.drop_cells]
  by_cases hqp : q = p
  · by_cases hk : k' = k
    · rw [if_pos hqp, if_pos hk, if_pos ⟨hk, hqp⟩, occupied_clear, recorded_of_found hi]
    · rw [if_pos hqp, if_neg hk, if_neg (fun h => hk h.1), hqp, recorded_of_found hi]
  · rw [if_neg hqp, if_neg (fun h => hqp h.2)]

/-- A late unregistration for a client that is gone finds nothing to remove. -/
theorem unregister_gone (hb : Balanced t gone) (hp : p ≠ 0) (hgone : p ∈ gone) (k : Kind)
    (h : Handle) :
    Balanced (dceUnregister k t p h) gone ∧
      ∀ q ≠ 0, ∀ k', recorded (dceUnregister k t p h) k' q = recorded t k' q := by
  cases hi : getClient t p with
  | none =>
      rw [dceUnregister_absent k h hi]
      exact ⟨hb, fun _ _ _ => rfl⟩
  | some i =>
      have hempty := hb.emptied i (by rwa [pid_of_getClient hi])
      have hcells : ∀ l, (((t i).drop k h).settle k).cells l = 0 := by
        intro l
        rw [Client.settle_cells, Client.drop_cells, ← occupied_eq_zero_iff]
        split
        · rw [occupied_clear, hempty, occupied_zero]
          rfl
        · rw [hempty, occupied_zero]
      have hpid := ((t i).drop k h).settle_pid_or k
      rw [Client.drop_pid, pid_of_getClient hi] at hpid
      rw [dceUnregister_found k h hi]
      constructor
      · exact hb.replace hp (Or.inl hi) (fun _ _ => Iff.rfl)
          (hpid.imp (fun h => ⟨h, fun hnot => absurd hgone hnot, fun _ => hcells⟩)
            fun h => ⟨h, hcells⟩)
      · intro q hq k'
        rw [SlotFor.recorded_update (Or.inl hi) hb.unique hp (hpid.imp_right fun h => ⟨h, hcells⟩)
          hq, hcells, occupied_zero]
        split
        · next hqp => rw [hqp, hb.recorded_gone hgone]
        · rfl

/-- After its obit nothing is recorded for a client, and the client is gone. -/
theorem obit (hb : Balanced t gone) (hp : p ≠ 0) (hgone : p ∉ gone) :
    Balanced (dceCleanupCb ⟨t, []⟩ .procObit p).clients (insert p gone) ∧
      ∀ q ≠ 0, ∀ k, recorded (dceCleanupCb ⟨t, []⟩ .procObit p).clients k q =
        if q = p then 0 else recorded t k q := by
  have hinsert : ∀ q, q ≠ p → (q ∈ insert p gone ↔ q ∈ gone) :=
    fun q hq => Finset.mem_insert.trans (or_iff_right hq)
  cases hi : getClient t p with
  | none =>
      rw [dceCleanupCb_absent hi]
      refine ⟨⟨hb.unique, hb.unused, fun j hj hlive => ?_, fun j hj => ?_⟩, fun q hq k => ?_⟩
      · exact hb.counted j hj fun hmem => hlive (Finset.mem_insert_of_mem hmem)
      · exact hb.emptied j ((hinsert _ (getClient_eq_none_iff.mp hi j)).mp hj)
      · split
        · next hqp => rw [hqp, recorded_of_absent hi]
        · rfl
  | some i =>
      have hcounted := hb.counted_of_found hp hgone hi
      have hclients : (dceCleanupCb ⟨t, []⟩ .procObit p).clients =
          Function.update t i (t i).drained :=
        dceCleanupCb_clients (s := ⟨t, []⟩) hi hcounted.drainsClean
      have hcells : ∀ k, (t i).drained.cells k = 0 := fun k => Client.drained_cells k
      have hpid := (t i).drained_pid_or
      rw [pid_of_getClient hi] at hpid
      rw [hclients]
      constructor
      · exact hb.replace hp (Or.inl hi) hinsert
          (hpid.imp (fun h => ⟨h, fun hnot => absurd (Finset.mem_insert_self p gone) hnot,
            fun _ => hcells⟩) fun h => ⟨h, hcells⟩)
      · intro q hq k
        rw [SlotFor.recorded_update (Or.inl hi) hb.unique hp (hpid.imp_right fun h => ⟨h, hcells⟩)
          hq, hcells, occupied_zero]

end Balanced

end Libdce.Tracking
