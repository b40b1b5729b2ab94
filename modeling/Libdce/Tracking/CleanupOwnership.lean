import Libdce.Tracking.ExactMap

/-!
# Whose handles a cleanup releases

Without assumptions on the capacity a slot may store less than its client has
open, and its count may be lower than what it stores: closing a handle that was
returned while the table was full is counted in a slot that never held it. When
such a count reaches zero early, the slot is given up with handles left in it,
and the next client that takes it over inherits them.

The weaker invariant of this module, that a slot stores only handles its client
has open, survives every event except such a release.
-/

namespace Libdce.Tracking

open Foundation.SlotArray Foundation.GuardedRuns

/-- Every call of the list releases something the client has open at that
moment. -/
def Ledger.Owns (l : Ledger) (p : Pid) : List CeCall → Prop
  | [] => True
  | call :: calls => ⟨call.kind, p, call.handle⟩ ∈ l.opened ∧ (l.release call).Owns p calls

instance Ledger.decidableOwns (p : Pid) :
    ∀ (l : Ledger) (calls : List CeCall), Decidable (l.Owns p calls)
  | _, [] => inferInstanceAs (Decidable True)
  | l, call :: calls =>
      have := Ledger.decidableOwns p (l.release call) calls
      inferInstanceAs (Decidable
        (⟨call.kind, p, call.handle⟩ ∈ l.opened ∧ (l.release call).Owns p calls))

/-- What orderly clients do besides acting legally: they delete the codecs of an
engine before they close it, and send nothing after their obit. -/
@[reducible] def Orderly (w : World) (ev : Event) : Prop :=
  w.Legal ev ∧
    match ev with
    | .engineOpen pid _ => pid ∉ w.buried
    | .engineClose pid engine => pid ∉ w.buried ∧ ∀ x ∈ w.ledger.home, x.2 ≠ engine
    | .viddec3Create pid _ _ => pid ∉ w.buried
    | .viddec3Control pid _ => pid ∉ w.buried
    | .viddec3Process pid _ => pid ∉ w.buried
    | .viddec3Delete pid _ => pid ∉ w.buried
    | .obit _ => True

instance (w : World) : DecidablePred (Orderly w) :=
  have (engine : Handle) : Decidable (∀ x ∈ w.ledger.home, x.2 ≠ engine) :=
    Finset.decidableDforallFinset
  Event.decidable

/-- The event does not make the server give up a slot that still holds handles.
Closing an engine with a count of one finds nothing else in the slot, but for
`engines[0]`, which the next client overwrites; an obit finds a slot whose count,
less its codecs, is zero or covers its engines. -/
@[reducible] def ReleasesClean (t : Clients) : Event → Prop
  | .engineClose pid engine => ∀ c, getClient t pid = some c → (t c).refs = 1 →
      (∀ j, (t c).codecs j = 0) ∧
        ∀ j, j = 0 ∨ (t c).engines j = 0 ∨ (t c).engines j = engine
  | .obit pid => ∀ c, getClient t pid = some c → (t c).DrainsClean
  | _ => True

instance (c : Client) : Decidable c.DrainsClean :=
  inferInstanceAs (Decidable (_ ∨ _))

instance (t : Clients) : DecidablePred (ReleasesClean t) := Event.decidable

/-- The slot stores only what the client has open, each handle at most once. -/
def Client.Within (c : Client) (l : Ledger) (p : Pid) : Prop :=
  ∀ k, occupied (c.cells k) ≤ (l.held k p).val

namespace Client.Within

variable {c : Client} {l l' : Ledger} {p : Pid} {k : Kind} {h : Handle}

theorem congr (hc : c.Within l p) (hheld : ∀ k, l'.held k p = l.held k p) : c.Within l' p := by
  intro k
  rw [hheld]
  exact hc k

/-- Recording a new handle, whether or not there is a free cell. -/
theorem store (hc : c.Within l p) (hh : h ≠ 0) (hnew : h ∉ l.held k p)
    (hheld : ∀ k', l'.held k' p = if k' = k then insert h (l.held k p) else l.held k' p) :
    (c.store k h).Within l' p := by
  intro k'
  rw [store_cells, hheld]
  split
  · rw [Finset.insert_val_of_notMem hnew]
    by_cases hroom : ∃ j, c.cells k j = 0
    · rw [occupied_store hroom hh]
      exact Multiset.cons_le_cons h (hc k)
    · rw [replaceFirst_of_absent (not_exists.mp hroom)]
      exact (hc k).trans (Multiset.le_cons_self _ _)
  · exact hc k'

theorem drop (hc : c.Within l p)
    (hheld : ∀ k', l'.held k' p = if k' = k then (l.held k p).erase h else l.held k' p) :
    (c.drop k h).Within l' p := by
  intro k'
  rw [drop_cells, hheld]
  split
  · rw [occupied_clear, Finset.erase_val]
    exact Multiset.erase_le_erase h (hc k)
  · exact hc k'

/-- A handle that is dropped and released. -/
theorem release (hc : c.Within l p) : (c.drop k h).Within (l.release ⟨k, h⟩) p := by
  apply hc.drop
  intro k'
  rw [Ledger.held_release]
  by_cases hk : k' = k
  · simp [hk]
  · simp [hk]

/-- It is in no cell any more. -/
theorem not_stored_release (hc : c.Within l p) (hh : h ≠ 0) (j : Fin 10) :
    (c.drop k h).cells k j ≠ h := by
  intro hstored
  have hheld := Multiset.mem_of_le (hc.release k) (mem_occupied.mpr ⟨hh, j, hstored⟩)
  rw [Finset.mem_val, Ledger.mem_held, Ledger.mem_release] at hheld
  exact hheld.2 ⟨rfl, rfl⟩

/-- A cell that held nothing else is null afterwards. -/
theorem drop_cell (hc : c.Within l p) {j : Fin 10} (hj : c.cells k j = 0 ∨ c.cells k j = h) :
    (c.drop k h).cells k j = 0 := by
  have hnot := hc.not_stored_release (k := k) (h := h)
  rw [drop_cells, if_pos rfl] at hnot ⊢
  rcases replaceFirst_apply (c.cells k) h 0 j with heq | ⟨_, heq⟩
  · rcases hj with hj | hj
    · exact heq.trans hj
    · by_contra hne
      exact hnot (hj ▸ heq ▸ hne) j (heq.trans hj)
  · exact heq

theorem nodup_releases (hc : c.Within l p) : c.releases.Nodup := by
  have hnodup : ∀ k, (entries (c.cells k)).Nodup := fun k =>
    Multiset.coe_nodup.mp (Multiset.nodup_of_le (hc k) (Finset.nodup _))
  have hinj : ∀ k : Kind, Function.Injective (CeCall.mk k) := by
    intro k x y hxy
    injection hxy
  apply List.Nodup.append ((hnodup .codec).map (hinj _)) ((hnodup .engine).map (hinj _))
  intro call hcodec hengine
  obtain ⟨x, _, rfl⟩ := List.mem_map.mp hcodec
  obtain ⟨y, _, hy⟩ := List.mem_map.mp hengine
  exact Kind.noConfusion (congrArg CeCall.kind hy)

theorem mem_of_releases (hc : c.Within l p) {call : CeCall} (hmem : call ∈ c.releases) :
    ⟨call.kind, p, call.handle⟩ ∈ l.opened := by
  rcases List.mem_append.mp hmem with hmem | hmem
  · obtain ⟨x, hx, rfl⟩ := List.mem_map.mp hmem
    exact Ledger.mem_held.mp (Multiset.mem_of_le (hc .codec) hx)
  · obtain ⟨x, hx, rfl⟩ := List.mem_map.mp hmem
    exact Ledger.mem_held.mp (Multiset.mem_of_le (hc .engine) hx)

end Client.Within

/-- Distinct calls on what the client has open release it call by call. -/
theorem Ledger.owns_of_nodup {l : Ledger} {p : Pid} {calls : List CeCall}
    (hnodup : calls.Nodup) (hmem : ∀ call ∈ calls, ⟨call.kind, p, call.handle⟩ ∈ l.opened) :
    l.Owns p calls := by
  induction calls generalizing l with
  | nil => trivial
  | cons call calls ih =>
      obtain ⟨hnot, hnodup⟩ := List.nodup_cons.mp hnodup
      refine ⟨hmem call List.mem_cons_self, ih hnodup fun other hother => ?_⟩
      refine Ledger.mem_release.mpr ⟨hmem other (List.mem_cons_of_mem _ hother), ?_⟩
      rintro ⟨hkind, hhandle⟩
      have heq : other = call := by
        cases other
        cases call
        simp_all
      exact hnot (heq ▸ hother)

/-- Slots store only what their clients have open, and an unused slot stores
nothing but perhaps a leftover in `engines[0]`. -/
structure OwnedOnly (t : Clients) (l : Ledger) : Prop where
  unique : UniquePids t
  oneOwner : l.OneOwner
  within : ∀ i, (t i).pid ≠ 0 → (t i).Within l (t i).pid
  unusedCodecs : ∀ i, (t i).pid = 0 → ∀ j, (t i).codecs j = 0
  unusedEngines : ∀ i, (t i).pid = 0 → ∀ j, j = 0 ∨ (t i).engines j = 0

namespace OwnedOnly

variable {t : Clients} {l l' : Ledger} {p : Pid} {i : Fin 10} {c : Client} {k : Kind} {h : Handle}

theorem zero : OwnedOnly Clients.zero Ledger.empty where
  unique := uniquePids_zero
  oneOwner := Ledger.oneOwner_empty
  within := fun _ hi => absurd rfl hi
  unusedCodecs := fun _ _ _ => rfl
  unusedEngines := fun _ _ _ => Or.inr rfl

theorem within_slot (ht : OwnedOnly t l) (hp : p ≠ 0) (hi : getClient t p = some i) :
    (t i).Within l p := by
  have hpid := pid_of_getClient hi
  have hc := ht.within i (hpid ▸ hp)
  rwa [hpid] at hc

/-- A slot that changes hands or contents, while the ledger only changes for the
client concerned. -/
theorem replace (ht : OwnedOnly t l) (hp : p ≠ 0) (hslot : SlotFor t p i)
    (hl : l'.OneOwner) (hothers : ∀ q ≠ p, ∀ k, l'.held k q = l.held k q)
    (hc : c.pid = p ∧ c.Within l' p ∨
      c.pid = 0 ∧ (∀ j, c.codecs j = 0) ∧ ∀ j, j = 0 ∨ c.engines j = 0) :
    OwnedOnly (Function.update t i c) l' := by
  have hunused : ∀ j, (Function.update t i c j).pid = 0 →
      (∀ m, (Function.update t i c j).codecs m = 0) ∧
        ∀ m, m = 0 ∨ (Function.update t i c j).engines m = 0 := by
    refine (Function.forall_update_iff t fun _ x => x.pid = 0 →
      (∀ m, x.codecs m = 0) ∧ ∀ m, m = 0 ∨ x.engines m = 0).mpr ⟨?_, ?_⟩
    · intro hfree
      rcases hc with ⟨hpid, _⟩ | ⟨_, hcells⟩
      · exact absurd (hpid.symm.trans hfree) hp
      · exact hcells
    · exact fun j _ hj => ⟨ht.unusedCodecs j hj, ht.unusedEngines j hj⟩
  refine ⟨hslot.uniquePids ht.unique (hc.imp And.left And.left), hl, ?_,
    fun j hj => (hunused j hj).1, fun j hj => (hunused j hj).2⟩
  refine (Function.forall_update_iff t fun _ x => x.pid ≠ 0 → x.Within l' x.pid).mpr ⟨?_, ?_⟩
  · intro hused
    rcases hc with ⟨hpid, hwithin⟩ | ⟨hpid, _⟩
    · rwa [hpid]
    · exact absurd hpid hused
  · intro j hji hj
    exact (ht.within j hj).congr (hothers _ (hslot.elsewhere ht.unique hp hji))

/-- The ledger alone may change, as long as no client loses what it has. -/
theorem mono (ht : OwnedOnly t l) (hl : l'.OneOwner)
    (hheld : ∀ i, (t i).pid ≠ 0 → (t i).Within l' (t i).pid) : OwnedOnly t l' :=
  ⟨ht.unique, hl, hheld, ht.unusedCodecs, ht.unusedEngines⟩

theorem grant (ht : OwnedOnly t l) (hfresh : ¬l.IsOpen k h) (home : Finset (Handle × Handle)) :
    OwnedOnly t ⟨insert ⟨k, p, h⟩ l.opened, home⟩ := by
  refine ht.mono (ht.oneOwner.insert hfresh home) fun i hi k' => (ht.within i hi k').trans ?_
  refine Finset.val_le_iff.mpr fun x hx => ?_
  rw [Ledger.mem_held] at hx ⊢
  exact Finset.mem_insert_of_mem hx

theorem record (ht : OwnedOnly t l) (hp : p ≠ 0) (hi : getClient t p = some i) (hh : h ≠ 0)
    (hfresh : ¬l.IsOpen k h) (home : Finset (Handle × Handle)) :
    OwnedOnly (Function.update t i ((t i).store k h)) ⟨insert ⟨k, p, h⟩ l.opened, home⟩ := by
  have hheld := Ledger.held_insert l k p h home
  have hnew : h ∉ l.held k p := fun hmem => hfresh (Ledger.isOpen_of_mem (Ledger.mem_held.mp hmem))
  refine ht.replace hp (Or.inl hi) (ht.oneOwner.insert hfresh home) ?_ (Or.inl ⟨?_, ?_⟩)
  · intro q hq k'
    rw [hheld, if_neg fun heq => hq heq.2]
  · rw [Client.store_pid, pid_of_getClient hi]
  · refine (ht.within_slot hp hi).store hh hnew fun k' => ?_
    simp only [hheld, and_true]

/-- Taking over an unused slot overwrites the one cell that may hold a leftover. -/
theorem occupy (ht : OwnedOnly t l) (hp : p ≠ 0) (hnone : getClient t p = none)
    (hfree : getClient t 0 = some i) (hh : h ≠ 0) (hfresh : ¬l.IsOpen .engine h)
    (home : Finset (Handle × Handle)) :
    OwnedOnly (Function.update t i ((t i).occupy p h)) ⟨insert ⟨.engine, p, h⟩ l.opened, home⟩ := by
  have hheld := Ledger.held_insert l .engine p h home
  have hpid := pid_of_getClient hfree
  refine ht.replace hp (Or.inr ⟨hnone, hpid⟩) (ht.oneOwner.insert hfresh home) ?_
    (Or.inl ⟨Client.occupy_pid .., fun k' => ?_⟩)
  · intro q hq k'
    rw [hheld, if_neg fun heq => hq heq.2]
  · rw [Client.occupy_cells]
    split
    · rename_i hk
      have hcells : Function.update ((t i).cells .engine) 0 h =
          Function.update (0 : Fin 10 → Handle) 0 h := by
        funext j
        by_cases hj : j = 0
        · rw [hj, Function.update_self, Function.update_self]
        · rw [Function.update_of_ne hj, Function.update_of_ne hj]
          exact (ht.unusedEngines i hpid j).resolve_left hj
      rw [hcells, occupied_update_free (f := 0) (i := 0) rfl hh, occupied_zero, Multiset.cons_zero,
        Multiset.singleton_le, Finset.mem_val, Ledger.mem_held, hk]
      exact Finset.mem_insert_self _ _
    · rename_i hk
      have hcells : (t i).cells k' = 0 := by
        cases k' with
        | engine => exact absurd rfl hk
        | codec => exact funext (ht.unusedCodecs i hpid)
      rw [hcells, occupied_zero]
      exact Multiset.zero_le _

/-- Unregistering and releasing a handle, when the slot is not given up with
other handles in it. -/
theorem release (ht : OwnedOnly t l) (hp : p ≠ 0) (hmem : ⟨k, p, h⟩ ∈ l.opened)
    (hclean : k = .engine → ReleasesClean t (.engineClose p h)) :
    OwnedOnly (dceUnregister k t p h) (l.release ⟨k, h⟩) := by
  have hothers : ∀ q ≠ p, ∀ k', (l.release ⟨k, h⟩).held k' q = l.held k' q :=
    fun q hq k' => ht.oneOwner.held_release_other hmem hq k'
  cases hi : getClient t p with
  | none =>
      rw [dceUnregister_absent k h hi]
      refine ht.mono (ht.oneOwner.release _) fun j hj => ?_
      exact (ht.within j hj).congr (hothers _ (getClient_eq_none_iff.mp hi j))
  | some i =>
      have hslot := ht.within_slot hp hi
      rw [dceUnregister_found k h hi]
      apply ht.replace hp (Or.inl hi) (ht.oneOwner.release _) hothers
      by_cases hfreed : k = .engine ∧ ((t i).drop k h).refs = 0
      · right
        obtain ⟨rfl, hrefs⟩ := hfreed
        have hone : (t i).refs = 1 := by
          rw [Client.drop_refs] at hrefs
          exact (Word.sub_eq_zero_iff _ _).mp hrefs
        obtain ⟨hcodecs, hengines⟩ := hclean rfl i hi hone
        refine ⟨by rw [Client.settle_pid, if_pos ⟨rfl, hrefs⟩], fun j => ?_, fun j => ?_⟩
        · have hcells := ((t i).drop .engine h).settle_cells .engine .codec
          exact (congrFun hcells j).trans (hcodecs j)
        · have hcells := ((t i).drop .engine h).settle_cells .engine .engine
          exact (hengines j).imp_right fun hj => (congrFun hcells j).trans (hslot.drop_cell hj)
      · left
        refine ⟨?_, fun k' => ?_⟩
        · rw [Client.settle_pid, if_neg hfreed, Client.drop_pid, pid_of_getClient hi]
        · rw [Client.settle_cells]
          exact hslot.release k'

theorem obit (ht : OwnedOnly t l) (hp : p ≠ 0) (hclean : ReleasesClean t (.obit p)) :
    OwnedOnly (dceCleanupCb ⟨t, []⟩ .procObit p).clients (l.releaseAll (obitCalls t p)) := by
  cases hi : getClient t p with
  | none =>
      rw [dceCleanupCb_absent hi]
      simp only [obitCalls, hi]
      exact ht
  | some i =>
      have hwithin := ht.within_slot hp hi
      rw [dceCleanupCb_clients (s := ⟨t, []⟩) hi (hclean i hi)]
      simp only [obitCalls, hi]
      refine ht.replace hp (Or.inl hi) (ht.oneOwner.releaseAll _) ?_ ?_
      · intro q hq k
        refine Ledger.held_releaseAll_of_disjoint fun h hmem hcall => hq ?_
        exact ht.oneOwner.owner_eq (Ledger.mem_held.mp hmem) (hwithin.mem_of_releases hcall)
      · rcases (t i).drained_pid_or with hpid | hpid
        · left
          refine ⟨by rw [hpid, pid_of_getClient hi], fun k => ?_⟩
          rw [Client.drained_cells, occupied_zero]
          exact Multiset.zero_le _
        · right
          exact ⟨hpid, fun j => congrFun (Client.drained_cells (c := t i) .codec) j,
            fun j => Or.inr (congrFun (Client.drained_cells (c := t i) .engine) j)⟩

/-- One event that releases clean keeps slots to their owners. -/
theorem step {w : World} {ev : Event} (hw : OwnedOnly w.clients w.ledger) (hlegal : w.Legal ev)
    (hclean : ReleasesClean w.clients ev) :
    OwnedOnly (w.step ev).clients (w.step ev).ledger := by
  cases ev with
  | engineOpen pid engine =>
      obtain ⟨hp, hfresh⟩ := hlegal
      by_cases he : engine = 0
      · rwa [he, World.step_engineOpen_null]
      · have hfresh := hfresh.resolve_left he
        rw [World.step_engineOpen _ _ he]
        cases hi : getClient w.clients pid with
        | some i =>
            simp only [dceRegisterEngine, hi]
            exact hw.record (k := .engine) hp hi he hfresh _
        | none =>
            cases hfree : getClient w.clients 0 with
            | some i =>
                simp only [dceRegisterEngine, hi, hfree]
                exact hw.occupy hp hi hfree he hfresh _
            | none =>
                simp only [dceRegisterEngine, hi, hfree]
                exact hw.grant hfresh _
  | engineClose pid engine => exact hw.release hlegal.1 hlegal.2 fun _ => hclean
  | viddec3Create pid engine codec =>
      obtain ⟨hp, _, hfresh⟩ := hlegal
      by_cases hcodec : codec = 0
      · rwa [hcodec, World.step_viddec3Create_null]
      · have hfresh := hfresh.resolve_left hcodec
        rw [World.step_viddec3Create _ _ _ hcodec]
        cases hi : getClient w.clients pid with
        | some i =>
            simp only [dceRegisterCodec, hi]
            exact hw.record (k := .codec) hp hi hcodec hfresh _
        | none =>
            simp only [dceRegisterCodec, hi]
            exact hw.grant hfresh _
  | viddec3Control pid codec => exact hw
  | viddec3Process pid codec => exact hw
  | viddec3Delete pid codec => exact hw.release hlegal.1 hlegal.2 fun hk => absurd hk (by decide)
  | obit pid =>
      rw [World.step_obit _ _ hlegal hw.unique]
      exact hw.obit hlegal hclean

end OwnedOnly

/-- In a run in which no slot is given up with handles left in it, every obit
releases only what the dead client has open at that moment. -/
theorem cleanup_releases_own {evs : List Event} {p : Pid}
    (run : Run World.step (fun w ev => Orderly w ev ∧ ReleasesClean w.clients ev) World.zero evs)
    (hobit : Orderly (final World.step World.zero evs) (.obit p)) :
    (final World.step World.zero evs).ledger.Owns p
      (dceCleanupCb ⟨(final World.step World.zero evs).clients, []⟩ .procObit p).calls := by
  have hw : OwnedOnly (final World.step World.zero evs).clients
      (final World.step World.zero evs).ledger :=
    run.invariant (I := fun w => OwnedOnly w.clients w.ledger) OwnedOnly.zero
      fun _ _ hw h => hw.step h.1.1 h.2
  have hp : p ≠ 0 := hobit.1
  rw [dceCleanupCb_calls hp hw.unique, List.nil_append]
  cases hi : getClient (final World.step World.zero evs).clients p with
  | none =>
      simp only [obitCalls, hi]
      trivial
  | some i =>
      simp only [obitCalls, hi]
      have hwithin := hw.within_slot hp hi
      exact Ledger.owns_of_nodup hwithin.nodup_releases fun _ => hwithin.mem_of_releases

/-- Ten clients fill the table, so the engine of client 11 is not recorded. Then
a slot becomes free, client 11 gets it for two more engines, and closes the
first engine, which its slot never held, and the second. The count is zero, the
slot is given up with the third engine in it, and client 12 takes it over. -/
def inheritedSlot : List Event :=
  (List.range 11).map (fun n =>
    .engineOpen (1 + BitVec.ofNat 32 n) (100 + BitVec.ofNat 32 n)) ++
    [.engineClose 1 100, .engineOpen 11 111, .engineOpen 11 112, .engineClose 11 110,
      .engineClose 11 111, .engineOpen 12 113]

/-- The obit of client 12 closes an engine that client 11 has open. -/
theorem inheritedSlot_not_owned :
    Run World.step Orderly World.zero (inheritedSlot ++ [.obit 12]) ∧
      ⟨.engine, 11, 112⟩ ∈ (final World.step World.zero inheritedSlot).ledger.opened ∧
      ⟨.engine, 112⟩ ∈ (dceCleanupCb ⟨(final World.step World.zero inheritedSlot).clients, []⟩
        .procObit 12).calls ∧
      ¬(final World.step World.zero inheritedSlot).ledger.Owns 12
        (dceCleanupCb ⟨(final World.step World.zero inheritedSlot).clients, []⟩
          .procObit 12).calls := by
  decide +kernel

/-- An eleventh engine that its slot has no cell for does no harm by itself. -/
theorem cleanup_releases_own_eleven :
    (final World.step World.zero ((List.range 11).map fun n =>
        .engineOpen 7 (100 + BitVec.ofNat 32 n))).ledger.Owns 7
      (dceCleanupCb ⟨(final World.step World.zero ((List.range 11).map fun n =>
        .engineOpen 7 (100 + BitVec.ofNat 32 n))).clients, []⟩ .procObit 7).calls :=
  cleanup_releases_own (by decide +kernel) (by decide +kernel)

end Libdce.Tracking
