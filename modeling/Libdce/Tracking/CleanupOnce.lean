import Libdce.Tracking.Tally

/-!
# The cleanup of a well-kept table

While every count agrees with its arrays, the obit of a client releases each of
its codecs and then each of its engines exactly once, empties its slot and leaves
all other slots alone; a second obit finds nothing to do.
-/

namespace Libdce.Tracking

open Foundation.SlotArray

/-- The handle is an entry of an array of the client. -/
def Holds (t : Clients) (p : Pid) (k : Kind) (h : Handle) : Prop :=
  h ≠ 0 ∧ ∃ i, (t i).pid = p ∧ ∃ j, (t i).cells k j = h

/-- No client has two slots, unused slots hold nothing, and in a used slot the
entries of an array are distinct and the count is their number. -/
structure WellKept (t : Clients) : Prop where
  unique : UniquePids t
  unused : ∀ i, (t i).pid = 0 → ∀ k, (t i).cells k = 0
  distinct : ∀ i, (t i).pid ≠ 0 → ∀ k j j',
    (t i).cells k j ≠ 0 → (t i).cells k j = (t i).cells k j' → j = j'
  counted : ∀ i, (t i).pid ≠ 0 → (t i).Counted

/-- Distinct cells give distinct entries. -/
theorem nodup_entries {f : Fin 10 → Handle} (h : ∀ j j', f j ≠ 0 → f j = f j' → j = j') :
    (entries f).Nodup := by
  rw [entries, List.ofFn_eq_map, List.filter_map]
  refine List.Nodup.map_on ?_ ((List.nodup_finRange 10).filter _)
  intro j hj j' _ heq
  exact h j j' (by simpa using (List.mem_filter.mp hj).2) heq

section Obit

variable {t : Clients} {p : Pid} {i : Fin 10} {k : Kind} {h : Handle}

theorem UniquePids.getClient_eq (ht : UniquePids t) (hp : p ≠ 0) (hi : (t i).pid = p) :
    getClient t p = some i := by
  have hfound := ht.getClient_pid (i := i) (hi ▸ hp)
  rwa [hi] at hfound

theorem holds_iff_of_found (ht : UniquePids t) (hp : p ≠ 0) (hi : getClient t p = some i) :
    Holds t p k h ↔ h ∈ entries ((t i).cells k) := by
  rw [mem_entries]
  constructor
  · rintro ⟨hh, i', hi', j, hj⟩
    have heq := ht.getClient_eq hp hi'
    rw [hi] at heq
    cases heq
    exact ⟨hh, j, hj⟩
  · rintro ⟨hh, hj⟩
    exact ⟨hh, i, pid_of_getClient hi, hj⟩

theorem not_holds_of_absent (hi : getClient t p = none) : ¬Holds t p k h := by
  rintro ⟨_, i, hpid, _⟩
  exact getClient_eq_none_iff.mp hi i hpid

/-- A slot whose cells are all null is swept without an effect. -/
theorem sweep_empty {c : Fin 10} {s : Server} (hcells : (s.clients c).cells k = 0) :
    sweep (cleanupRound k p c) s = s := by
  refine sweep_invariant (n := 10) (I := fun _ s' => s' = s) rfl ?_
  rintro i s' rfl
  rw [cleanupRound, hcells, if_neg (by simp)]

/-- The obit of a client whose slot is empty does nothing. -/
theorem dceCleanupCb_of_empty {s : Server}
    (hcells : ∀ c, getClient s.clients p = some c → ∀ k, (s.clients c).cells k = 0) :
    dceCleanupCb s .procObit p = s := by
  cases hc : getClient s.clients p with
  | none => exact dceCleanupCb_absent hc
  | some c =>
      simp only [dceCleanupCb, hc, sweep_empty (hcells c hc .codec), sweep_empty (hcells c hc .engine)]

/-- What the obit of a client does to a well-kept table. -/
theorem WellKept.obit {s : Server} (hs : WellKept s.clients) (hp : p ≠ 0) (c : Fin 10) :
    (dceCleanupCb s .procObit p).clients c =
      if (s.clients c).pid = p then (s.clients c).drained else s.clients c := by
  cases hi : getClient s.clients p with
  | none => rw [dceCleanupCb_absent hi, if_neg (getClient_eq_none_iff.mp hi c)]
  | some i =>
      have hpid := pid_of_getClient hi
      have hcounted := hs.counted i (hpid ▸ hp)
      rw [dceCleanupCb_clients hi hcounted.drainsClean]
      by_cases hc : (s.clients c).pid = p
      · have heq : c = i := hs.unique c i (hc ▸ hp) (hc.trans hpid.symm)
        subst heq
        rw [if_pos hc, Function.update_self]
      · have hne : c ≠ i := by
          rintro rfl
          exact hc hpid
        rw [if_neg hc, Function.update_of_ne hne]

/-- The calls of the obit. -/
theorem WellKept.obit_calls {s : Server} (hs : WellKept s.clients) (hp : p ≠ 0) :
    ∃ codecs engines : List Handle,
      (dceCleanupCb s .procObit p).calls =
        s.calls ++ codecs.map (⟨.codec, ·⟩) ++ engines.map (⟨.engine, ·⟩) ∧
      codecs.Nodup ∧ (∀ h, h ∈ codecs ↔ Holds s.clients p .codec h) ∧
      engines.Nodup ∧ (∀ h, h ∈ engines ↔ Holds s.clients p .engine h) := by
  rw [dceCleanupCb_calls hp hs.unique]
  cases hi : getClient s.clients p with
  | none =>
      have hnone : ∀ k h, h ∈ ([] : List Handle) ↔ Holds s.clients p k h := fun k h =>
        iff_of_false List.not_mem_nil (not_holds_of_absent hi)
      exact ⟨[], [], by simp [obitCalls, hi], List.nodup_nil, hnone .codec, List.nodup_nil,
        hnone .engine⟩
  | some i =>
      have hpid : (s.clients i).pid ≠ 0 := (pid_of_getClient hi).symm ▸ hp
      exact ⟨entries ((s.clients i).cells .codec), entries ((s.clients i).cells .engine),
        by simp [obitCalls, hi, Client.releases, Client.cells],
        nodup_entries (hs.distinct i hpid .codec),
        fun h => (holds_iff_of_found hs.unique hp hi).symm,
        nodup_entries (hs.distinct i hpid .engine),
        fun h => (holds_iff_of_found hs.unique hp hi).symm⟩

end Obit

/-- The obit of a client releases each of its codecs once and after them each of
its engines once, and nothing else; it empties the client's slot, leaves the
other slots alone, and has no effect a second time. Other events do nothing. -/
theorem cleanup_exactly_once {s : Server} (hs : WellKept s.clients) {p : Pid} (hp : p ≠ 0) :
    (∃ codecs engines : List Handle,
      (dceCleanupCb s .procObit p).calls =
        s.calls ++ codecs.map (⟨.codec, ·⟩) ++ engines.map (⟨.engine, ·⟩) ∧
      codecs.Nodup ∧ (∀ h, h ∈ codecs ↔ Holds s.clients p .codec h) ∧
      engines.Nodup ∧ (∀ h, h ∈ engines ↔ Holds s.clients p .engine h)) ∧
    (∀ c, (s.clients c).pid = p →
      ((dceCleanupCb s .procObit p).clients c).engines = 0 ∧
      ((dceCleanupCb s .procObit p).clients c).codecs = 0 ∧
      ((dceCleanupCb s .procObit p).clients c).refs = 0) ∧
    (∀ c, (s.clients c).pid ≠ p →
      (dceCleanupCb s .procObit p).clients c = s.clients c) ∧
    dceCleanupCb (dceCleanupCb s .procObit p) .procObit p = dceCleanupCb s .procObit p ∧
    ∀ evt, evt ≠ .procObit → dceCleanupCb s evt p = s := by
  refine ⟨hs.obit_calls hp, ?_, ?_, ?_, ?_⟩
  · intro c hc
    rw [hs.obit hp c, if_pos hc]
    exact ⟨Client.drained_cells .engine, Client.drained_cells .codec,
      (hs.counted c (hc ▸ hp)).drained_refs_eq_zero⟩
  · intro c hc
    rw [hs.obit hp c, if_neg hc]
  · apply dceCleanupCb_of_empty
    intro c hc k
    have hpid := pid_of_getClient hc
    rw [hs.obit hp c] at hpid ⊢
    split at hpid
    · next hold => rw [if_pos hold, Client.drained_cells]
    · next hold => exact absurd hpid hold
  · intro evt hevt
    cases evt with
    | procObit => exact absurd rfl hevt
    | other => rfl

/-- Process 7 holds two engines and a codec, process 9 an engine. -/
def twoClients : Clients := fun c =>
  if c = 0 then ⟨7, 3, Function.update (Function.update 0 1 101) 4 100, Function.update 0 0 200⟩
  else if c = 1 then ⟨9, 1, Function.update 0 0 102, 0⟩
  else ⟨0, 0, 0, 0⟩

theorem wellKept_twoClients : WellKept twoClients where
  unique := by
    unfold UniquePids
    decide +kernel
  unused := by
    have hcells : ∀ i, (twoClients i).pid = 0 →
        (twoClients i).engines = 0 ∧ (twoClients i).codecs = 0 := by decide +kernel
    intro i hi k
    cases k
    · exact (hcells i hi).1
    · exact (hcells i hi).2
  distinct := by
    have hcells : ∀ i, (twoClients i).pid ≠ 0 →
        (∀ j j', (twoClients i).engines j ≠ 0 →
          (twoClients i).engines j = (twoClients i).engines j' → j = j') ∧
        ∀ j j', (twoClients i).codecs j ≠ 0 →
          (twoClients i).codecs j = (twoClients i).codecs j' → j = j' := by decide +kernel
    intro i hi k
    cases k
    · exact (hcells i hi).1
    · exact (hcells i hi).2
  counted := by
    unfold Client.Counted
    decide +kernel

theorem cleanup_exactly_once_two :
    (∃ codecs engines : List Handle,
      (dceCleanupCb ⟨twoClients, []⟩ .procObit 7).calls =
        [] ++ codecs.map (⟨.codec, ·⟩) ++ engines.map (⟨.engine, ·⟩) ∧
      codecs.Nodup ∧ (∀ h, h ∈ codecs ↔ Holds twoClients 7 .codec h) ∧
      engines.Nodup ∧ (∀ h, h ∈ engines ↔ Holds twoClients 7 .engine h)) ∧
    (dceCleanupCb ⟨twoClients, []⟩ .procObit 7).clients 1 = twoClients 1 := by
  have hobit := cleanup_exactly_once (s := ⟨twoClients, []⟩) wellKept_twoClients (p := 7) (by decide)
  exact ⟨hobit.1, hobit.2.2.1 1 (by decide +kernel)⟩

end Libdce.Tracking
