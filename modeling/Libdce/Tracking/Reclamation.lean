import Libdce.Tracking.Capacity

/-!
# When slots are reclaimed

A slot is given up when the count of its client reaches zero while an engine is
unregistered. Unregistering a codec never gives a slot up, so a client whose
last handle is a codec leaves its slot behind.
-/

namespace Libdce.Tracking

open Foundation.SlotArray Foundation.GuardedRuns

/-- No slot carries the pid of a client that has nothing open. -/
def Reclaimed (w : World) : Prop :=
  ∀ i, (w.clients i).pid ≠ 0 → ∃ x ∈ w.ledger.opened, x.owner = (w.clients i).pid

/-- Fewer than ten clients with something open leave an unused slot. -/
def AcceptsClient (w : World) : Prop :=
  (w.ledger.opened.image Holding.owner).card < 10 → (getClient w.clients 0).isSome

/-- The last handle a client gives back is an engine: it does not delete a codec
when that is all it has open, and it does not die with codecs but no engine. -/
@[reducible] def EngineLast (w : World) : Event → Prop
  | .viddec3Delete pid codec => ∃ x ∈ w.ledger.opened, x.owner = pid ∧ x ≠ ⟨.codec, pid, codec⟩
  | .obit pid => (∃ x ∈ w.ledger.opened, x.owner = pid) →
      ∃ x ∈ w.ledger.opened, x.owner = pid ∧ x.kind = .engine
  | _ => True

instance (w : World) : Decidable (Reclaimed w) :=
  inferInstanceAs (Decidable (∀ i, (w.clients i).pid ≠ 0 →
    ∃ x ∈ w.ledger.opened, x.owner = (w.clients i).pid))

instance (w : World) : DecidablePred (EngineLast w) := Event.decidable

/-- The client has a slot but nothing open. -/
def Idle (t : Clients) (l : Ledger) (p : Pid) : Prop :=
  (∃ i, getClient t p = some i) ∧ ∀ k, l.held k p = ∅

section Idle

variable {t t' : Clients} {l l' : Ledger} {p q : Pid} {w : World}

theorem exists_holding_iff : (∃ x ∈ l.opened, x.owner = p) ↔ ∃ k h, h ∈ l.held k p := by
  constructor
  · rintro ⟨⟨k, p, h⟩, hx, rfl⟩
    exact ⟨k, h, Ledger.mem_held.mpr hx⟩
  · rintro ⟨k, h, hmem⟩
    exact ⟨_, Ledger.mem_held.mp hmem, rfl⟩

theorem not_exists_holding_iff : (¬∃ x ∈ l.opened, x.owner = p) ↔ ∀ k, l.held k p = ∅ := by
  rw [exists_holding_iff]
  simp only [not_exists, Finset.eq_empty_iff_forall_notMem]

theorem reclaimed_iff (hu : UniquePids w.clients) :
    Reclaimed w ↔ ∀ p ≠ 0, ¬Idle w.clients w.ledger p := by
  constructor
  · rintro h p hp ⟨⟨i, hi⟩, hempty⟩
    have hpid := pid_of_getClient hi
    have hex := h i (hpid ▸ hp)
    rw [hpid] at hex
    exact not_exists_holding_iff.mpr hempty hex
  · intro h i hi
    by_contra hex
    exact h _ hi ⟨⟨i, hu.getClient_pid hi⟩, not_exists_holding_iff.mp hex⟩

theorem OnlyTouches.getClient_other (h : OnlyTouches p t t') (hq : q ≠ 0) (hqp : q ≠ p) :
    getClient t' q = getClient t q := by
  refine getClient_congr fun j => ?_
  rcases h j with heq | ⟨hold, hnew⟩
  · rw [heq]
  · have hne : ∀ r : Pid, r = p ∨ r = 0 → r ≠ q := by
      rintro r (rfl | rfl) rfl
      · exact hqp rfl
      · exact hq rfl
    simp only [hne _ hold, hne _ hnew]

/-- What an event of another client does to the holdings of a client: nothing. -/
theorem Exact.held_step_other {ev : Event} (hw : Exact w.clients w.ledger)
    (hlegal : w.Legal ev) (hq : q ≠ ev.pid) (k : Kind) :
    (w.step ev).ledger.held k q = w.ledger.held k q := by
  cases ev with
  | engineOpen pid engine =>
      by_cases he : engine = 0
      · rw [he, World.step_engineOpen_null]
      · rw [World.step_engineOpen _ _ he, Ledger.held_insert, if_neg fun h => hq h.2]
  | engineClose pid engine => exact hw.oneOwner.held_release_other hlegal.2 hq k
  | viddec3Create pid engine codec =>
      by_cases hc : codec = 0
      · rw [hc, World.step_viddec3Create_null]
      · rw [World.step_viddec3Create _ _ _ hc, Ledger.held_insert, if_neg fun h => hq h.2]
  | viddec3Control pid codec => rfl
  | viddec3Process pid codec => rfl
  | viddec3Delete pid codec => exact hw.oneOwner.held_release_other hlegal.2 hq k
  | obit pid =>
      rw [World.step_obit _ _ hlegal hw.unique]
      exact hw.held_obit_other hlegal hq k

/-- An event changes at most whether its own client is idle. -/
theorem Exact.idle_step_other {ev : Event} (hw : Exact w.clients w.ledger)
    (hlegal : w.Legal ev) (hq0 : q ≠ 0) (hq : q ≠ ev.pid) :
    Idle (w.step ev).clients (w.step ev).ledger q ↔ Idle w.clients w.ledger q := by
  have hget : getClient (w.step ev).clients q = getClient w.clients q :=
    (serve_contained ⟨w.clients, []⟩ ev).touches.getClient_other hq0 hq
  unfold Idle
  rw [hget]
  simp only [hw.held_step_other hlegal hq]

/-- A client that was just given a handle is not idle. -/
theorem not_idle_insert (t : Clients) (l : Ledger) (k : Kind) (p : Pid) (h : Handle)
    (home : Finset (Handle × Handle)) : ¬Idle t ⟨insert ⟨k, p, h⟩ l.opened, home⟩ p := by
  rintro ⟨_, hempty⟩
  have hheld := Ledger.held_insert l k p h home k p
  rw [if_pos ⟨rfl, rfl⟩] at hheld
  exact Finset.insert_ne_empty _ _ (hheld.symm.trans (hempty k))

/-- Closing an engine never leaves an idle slot. -/
theorem Exact.not_idle_engineClose {engine : Handle} (hw : Exact t l) (hp : p ≠ 0)
    (hmem : ⟨.engine, p, engine⟩ ∈ l.opened) :
    ¬Idle (dceUnregister .engine t p engine) (l.release ⟨.engine, engine⟩) p := by
  rintro ⟨⟨j, hj⟩, hempty⟩
  have hafter := (hw.release hp hmem).mirrors_slot hp hj
  have hrefs : (dceUnregister .engine t p engine j).refs = 0 := by
    rw [Word.eq_zero_iff, hafter.counted, hempty, hempty]
    rfl
  obtain ⟨i, hi⟩ := hw.covered _ hmem
  have hpid := pid_of_getClient hj
  rw [dceUnregister_found .engine engine hi] at hrefs hpid
  by_cases hji : j = i
  · subst j
    rw [Function.update_self] at hrefs hpid
    rw [Client.settle_refs] at hrefs
    rw [Client.settle_pid, if_pos ⟨rfl, hrefs⟩] at hpid
    exact hp hpid.symm
  · rw [Function.update_of_ne hji] at hpid
    have hpi := pid_of_getClient hi
    exact hji (hw.unique j i (hpid ▸ hp) (hpid.trans hpi.symm))

/-- Deleting a codec leaves an idle slot exactly when it was the last handle. -/
theorem Exact.idle_viddec3Delete {codec : Handle} (hw : Exact t l)
    (hmem : ⟨.codec, p, codec⟩ ∈ l.opened) :
    Idle (dceUnregister .codec t p codec) (l.release ⟨.codec, codec⟩) p ↔
      ¬∃ x ∈ l.opened, x.owner = p ∧ x ≠ ⟨.codec, p, codec⟩ := by
  obtain ⟨i, hi⟩ := hw.covered _ hmem
  have hfound : getClient (dceUnregister .codec t p codec) p = some i := by
    rw [dceUnregister_found .codec codec hi]
    exact getClient_update_self hi (by simp [Client.settle, pid_of_getClient hi])
  have hafter : (∀ k, (l.release ⟨.codec, codec⟩).held k p = ∅) ↔
      ¬∃ x ∈ l.opened, x.owner = p ∧ x ≠ ⟨.codec, p, codec⟩ := by
    rw [← not_exists_holding_iff]
    refine not_congr (exists_congr fun x => ?_)
    rw [Ledger.mem_release, and_assoc]
    refine and_congr_right fun _ => ?_
    rw [and_comm]
    refine and_congr_right fun howner => not_congr ?_
    cases x
    simp_all
  rw [← hafter]
  exact ⟨And.right, fun hempty => ⟨⟨i, hfound⟩, hempty⟩⟩

/-- An obit leaves an idle slot exactly when the slot held codecs only or
nothing at all. -/
theorem Exact.idle_obit (hw : Exact t l) (hp : p ≠ 0) :
    Idle (dceCleanupCb ⟨t, []⟩ .procObit p).clients (l.releaseAll (obitCalls t p)) p ↔
      (∃ i, getClient t p = some i) ∧ l.held .engine p = ∅ := by
  cases hi : getClient t p with
  | none =>
      rw [dceCleanupCb_absent hi]
      simp [Idle, hi]
  | some i =>
      have hm := hw.mirrors_slot hp hi
      have hclients : (dceCleanupCb ⟨t, []⟩ .procObit p).clients =
          Function.update t i (t i).drained :=
        dceCleanupCb_clients (s := ⟨t, []⟩) hi hm.countsCells.drainsClean
      have hempty : ∀ k, (l.releaseAll (obitCalls t p)).held k p = ∅ := by
        intro k
        refine Ledger.held_releaseAll_of_subset fun h hmem => ?_
        simp only [obitCalls, hi]
        exact hm.mem_releases_iff.mpr (Ledger.mem_held.mp hmem)
      have hengines : entries (t i).engines = [] ↔ l.held .engine p = ∅ := by
        rw [← Finset.val_eq_zero, ← hm.stored .engine]
        exact (Multiset.coe_eq_zero _).symm
      rw [hclients]
      by_cases hnone : l.held .engine p = ∅
      · have hpid : (t i).drained.pid = p := by
          rw [Client.drained_pid, if_neg fun h => h.1 (hengines.mpr hnone), pid_of_getClient hi]
        exact iff_of_true ⟨⟨i, getClient_update_self hi hpid⟩, hempty⟩ ⟨⟨i, rfl⟩, hnone⟩
      · have hpid : (t i).drained.pid = 0 := by
          rw [Client.drained_pid,
            if_pos ⟨fun h => hnone (hengines.mp h), hm.countsCells.drained_refs_eq_zero⟩]
        have hgone := hw.unique.getClient_update_release hp hi (hpid ▸ hp.symm)
        refine iff_of_false ?_ fun h => hnone h.2
        rintro ⟨⟨j, hj⟩, _⟩
        rw [hgone] at hj
        cases hj

/-- While slots are reclaimed, a client has one exactly when it has something open. -/
theorem Exact.found_iff (hw : Exact w.clients w.ledger) (hrec : Reclaimed w) (hp : p ≠ 0) :
    (∃ i, getClient w.clients p = some i) ↔ ∃ x ∈ w.ledger.opened, x.owner = p := by
  constructor
  · rintro ⟨i, hi⟩
    have hpid := pid_of_getClient hi
    rw [← hpid]
    exact hrec i (hpid ▸ hp)
  · rintro ⟨x, hx, rfl⟩
    exact hw.covered x hx

theorem held_ne_empty_iff {k : Kind} :
    ¬l.held k p = ∅ ↔ ∃ x ∈ l.opened, x.owner = p ∧ x.kind = k := by
  rw [← ne_eq, ← Finset.nonempty_iff_ne_empty]
  constructor
  · rintro ⟨h, hmem⟩
    exact ⟨_, Ledger.mem_held.mp hmem, rfl, rfl⟩
  · rintro ⟨⟨k, p, h⟩, hx, rfl, rfl⟩
    exact ⟨h, Ledger.mem_held.mpr hx⟩

/-- Whether an event keeps the slots reclaimed depends on its own client only. -/
theorem Exact.reclaimed_step_own {ev : Event} (hw : Exact w.clients w.ledger)
    (hlegal : w.Legal ev) (hroom : HasRoom w.clients ev) (hp : ev.pid ≠ 0) (hrec : Reclaimed w) :
    Reclaimed (w.step ev) ↔ ¬Idle (w.step ev).clients (w.step ev).ledger ev.pid := by
  have hnow := (reclaimed_iff hw.unique).mp hrec
  rw [reclaimed_iff (hw.step hlegal hroom).unique]
  constructor
  · exact fun h => h _ hp
  · intro h q hq
    by_cases hqp : q = ev.pid
    · rwa [hqp]
    · rw [hw.idle_step_other hlegal hq hqp]
      exact hnow q hq

end Idle

/-- One event keeps the slots reclaimed exactly when it respects the order. -/
theorem Exact.reclaimed_step {w : World} {ev : Event} (hw : Exact w.clients w.ledger)
    (hlegal : w.Legal ev) (hroom : HasRoom w.clients ev) (hrec : Reclaimed w) :
    Reclaimed (w.step ev) ↔ EngineLast w ev := by
  have hnow := (reclaimed_iff hw.unique).mp hrec
  have hp : ev.pid ≠ 0 := by
    cases ev <;> first | exact hlegal.1 | exact hlegal
  rw [hw.reclaimed_step_own hlegal hroom hp hrec]
  cases ev with
  | engineOpen pid engine =>
      refine iff_of_true ?_ trivial
      by_cases he : engine = 0
      · rw [he, World.step_engineOpen_null]
        exact hnow _ hp
      · rw [World.step_engineOpen _ _ he]
        exact not_idle_insert _ w.ledger .engine pid engine _
  | engineClose pid engine =>
      exact iff_of_true (hw.not_idle_engineClose hlegal.1 hlegal.2) trivial
  | viddec3Create pid engine codec =>
      refine iff_of_true ?_ trivial
      by_cases hc : codec = 0
      · rw [hc, World.step_viddec3Create_null]
        exact hnow _ hp
      · rw [World.step_viddec3Create _ _ _ hc]
        exact not_idle_insert _ w.ledger .codec pid codec _
  | viddec3Control pid codec => exact iff_of_true (hnow _ hp) trivial
  | viddec3Process pid codec => exact iff_of_true (hnow _ hp) trivial
  | viddec3Delete pid codec => exact (not_congr (hw.idle_viddec3Delete hlegal.2)).trans not_not
  | obit pid =>
      rw [World.step_obit _ _ hlegal hw.unique]
      calc
        _ ↔ ¬((∃ i, getClient w.clients pid = some i) ∧ w.ledger.held .engine pid = ∅) :=
          not_congr (hw.idle_obit hlegal)
        _ ↔ ((∃ x ∈ w.ledger.opened, x.owner = pid) → ¬w.ledger.held .engine pid = ∅) := by
          rw [hw.found_iff hrec hlegal, not_and]
        _ ↔ EngineLast w (.obit pid) := by
          rw [held_ne_empty_iff]

/-- Reclaimed slots with unique pids leave room for a tenth client. -/
theorem Reclaimed.acceptsClient {w : World} (hrec : Reclaimed w) (hu : UniquePids w.clients) :
    AcceptsClient w := by
  intro hlt
  by_contra hfull
  rw [Bool.not_eq_true, Option.isSome_eq_false_iff, Option.isNone_iff_eq_none,
    getClient_eq_none_iff] at hfull
  have hle : (Finset.univ : Finset (Fin 10)).card ≤
      (w.ledger.opened.image Holding.owner).card := by
    refine Finset.card_le_card_of_injOn (fun i => (w.clients i).pid) (fun i _ => ?_)
      fun i _ j _ hij => hu i j (hfull i) hij
    obtain ⟨x, hx, howner⟩ := hrec i (hfull i)
    exact Finset.mem_coe.mpr (Finset.mem_image.mpr ⟨x, hx, howner⟩)
  simp at hle
  omega

/-- Within the capacity, slots are reclaimed in every state of a run, and new
clients accepted, exactly when the last handle every client gives back is an
engine. -/
theorem reclaimed_iff_engineLast {evs : List Event}
    (run : Run World.step (fun w ev => w.Legal ev ∧ WithinCapacity w ev) World.zero evs) :
    (∀ pre, pre <+: evs → Reclaimed (final World.step World.zero pre) ∧
        AcceptsClient (final World.step World.zero pre)) ↔
      Run World.step EngineLast World.zero evs := by
  refine run.forall_prefix_iff (I := fun w => Exact w.clients w.ledger ∧ Reclaimed w)
    (P := fun w => Reclaimed w ∧ AcceptsClient w) (Q := EngineLast)
    ⟨Exact.zero, fun i hi => absurd rfl hi⟩ ?_ ?_ ?_
  · exact fun w hw => ⟨hw.2, hw.2.acceptsClient hw.1.unique⟩
  · intro w ev hw hok horder
    have hroom := hok.2.hasRoom hw.1 hok.1
    exact ⟨hw.1.step hok.1 hroom, (hw.1.reclaimed_step hok.1 hroom hw.2).mpr horder⟩
  · intro w ev hw hok hnext
    exact (hw.1.reclaimed_step hok.1 (hok.2.hasRoom hw.1 hok.1) hw.2).mp hnext.1

/-- The order of the sample client's error path: the engine is closed while its
codec is still there, and only then the codec goes. -/
def codecLast : List Event :=
  [.engineOpen 7 100, .viddec3Create 7 100 200, .engineClose 7 100, .viddec3Delete 7 200]

/-- Whether the client deletes the codec itself or dies, its slot stays behind. -/
theorem codecLast_not_reclaimed :
    (Run World.step (fun w ev => w.Legal ev ∧ WithinCapacity w ev) World.zero codecLast ∧
      ¬Reclaimed (final World.step World.zero codecLast)) ∧
    Run World.step (fun w ev => w.Legal ev ∧ WithinCapacity w ev) World.zero
        (codecLast.take 3 ++ [.obit 7]) ∧
      ¬Reclaimed (final World.step World.zero (codecLast.take 3 ++ [.obit 7])) := by
  decide +kernel

/-- The codec first, then the engine. -/
def engineLast : List Event :=
  [.engineOpen 7 100, .viddec3Create 7 100 200, .viddec3Delete 7 200, .engineOpen 9 101,
    .engineClose 7 100, .obit 9]

theorem reclaimed_iff_engineLast_orderly :
    Run World.step EngineLast World.zero engineLast ∧
      ∀ pre, pre <+: engineLast → Reclaimed (final World.step World.zero pre) ∧
        AcceptsClient (final World.step World.zero pre) := by
  have horder : Run World.step EngineLast World.zero engineLast := by decide +kernel
  exact ⟨horder, (reclaimed_iff_engineLast (by decide +kernel)).mpr horder⟩

end Libdce.Tracking
