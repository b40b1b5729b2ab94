import Libdce.Foundation.GuardedRuns
import Libdce.Tracking.CleanupOnce

/-!
# Unregistering handles that are not recorded

An unregistration decrements the count of the slot whether or not it found the
handle. A stray one therefore leaves the table alone only when the client has no
slot, and a count that does not cover the entries lets a slot go while it still
records something. As long as every unregistration is covered, by an entry or by
a count above the entries, no count becomes negative and no slot is given up
early.
-/

namespace Libdce.Tracking

open Foundation.SlotArray Foundation.GuardedRuns

/-- A call of one of the four registration functions. -/
inductive TableCall
  | register (k : Kind) (pid : Pid) (h : Handle)
  | unregister (k : Kind) (pid : Pid) (h : Handle)
  deriving DecidableEq, Repr

/-- The table after the call. -/
def TableCall.step (t : Clients) : TableCall → Clients
  | .register k pid h => dceRegister k t pid h
  | .unregister k pid h => dceUnregister k t pid h

/-- An unregistration names an entry, or the count of the slot exceeds its
entries, or the client has no slot; and a registration does not overflow the
count. -/
@[reducible] def TableCall.Covered (t : Clients) : TableCall → Prop
  | .register _ pid _ =>
      pid ≠ 0 ∧ ∀ i, (t i).pid = pid → (t i).refs.toNat + 1 < 2 ^ 31
  | .unregister k pid h =>
      pid ≠ 0 ∧ ∀ i, (t i).pid = pid →
        (h ≠ 0 ∧ ∃ j, (t i).cells k j = h) ∨ (t i).filled < (t i).refs.toNat

instance (t : Clients) : DecidablePred (TableCall.Covered t)
  | .register _ _ _ | .unregister _ _ _ => inferInstance

section Stray

variable {k : Kind} {t : Clients} {p : Pid} {h : Handle} {i : Fin 10}

/-- An unregistration always changes the count of the slot. -/
theorem dceUnregister_eq_self_iff :
    dceUnregister k t p h = t ↔ ∀ i, (t i).pid ≠ p := by
  constructor
  · intro heq
    cases hi : getClient t p with
    | none => exact getClient_eq_none_iff.mp hi
    | some i =>
        have hrefs := congrArg (fun t' : Clients => (t' i).refs) heq
        simp only [dceUnregister_found k h hi, Function.update_self, Client.settle_refs,
          Client.drop_refs] at hrefs
        bv_omega
  · exact fun hnone => dceUnregister_absent k h (getClient_eq_none_iff.mpr hnone)

/-- An engine close that brings the count of the client's only slot to zero gives the
slot up. -/
theorem slotless_unregister_iff (hp : p ≠ 0) :
    (∀ i, (dceUnregister k t p h i).pid ≠ p) ↔
      ∀ i, (t i).pid = p → getClient t p = some i ∧ k = .engine ∧ (t i).refs = 1 := by
  cases hi : getClient t p with
  | none =>
      rw [dceUnregister_absent k h hi]
      have hnone := getClient_eq_none_iff.mp hi
      exact iff_of_true hnone fun i hpid => absurd hpid (hnone i)
  | some i =>
      have hpid := pid_of_getClient hi
      rw [dceUnregister_found k h hi]
      constructor
      · intro hslotless j hj
        have hgone := hslotless j
        by_cases hji : j = i
        · subst hji
          rw [Function.update_self, Client.settle_pid, Client.drop_refs, Client.drop_pid] at hgone
          by_cases hfreed : k = .engine ∧ (t j).refs - 1 = 0
          · exact ⟨rfl, hfreed.1, (Word.sub_eq_zero_iff _ _).mp hfreed.2⟩
          · rw [if_neg hfreed] at hgone
            exact absurd hj hgone
        · rw [Function.update_of_ne hji] at hgone
          exact absurd hj hgone
      · intro hlast j
        obtain ⟨-, hk, hrefs⟩ := hlast i hpid
        by_cases hji : j = i
        · subst hji
          rw [Function.update_self, Client.settle_pid, Client.drop_refs,
            if_pos ⟨hk, (Word.sub_eq_zero_iff _ _).mpr hrefs⟩]
          exact hp.symm
        · rw [Function.update_of_ne hji]
          intro hj
          exact hji (Option.some.inj (hlast j hj).1).symm

end Stray

/-- The invariant: counts cover the entries and are not negative, and unused
slots have none. -/
structure Covers (t : Clients) : Prop where
  unique : UniquePids t
  filled : ∀ i, (t i).filled ≤ (t i).refs.toNat
  bound : ∀ i, (t i).refs.toNat < 2 ^ 31
  unused : ∀ i, (t i).pid = 0 → ∀ k, (t i).cells k = 0

section Step

variable {t : Clients} {p : Pid} {i : Fin 10} {c : Client} {k : Kind} {h : Handle}

theorem card_replaceFirst_le (f : Fin 10 → Handle) (x : Handle) :
    (occupied (replaceFirst f 0 x)).card ≤ (occupied f).card + 1 := by
  by_cases hx : x = 0
  · subst hx
    rw [occupied_clear]
    exact (Multiset.card_le_card (Multiset.erase_le _ _)).trans (Nat.le_succ _)
  · by_cases hroom : ∃ j, f j = 0
    · rw [occupied_store hroom hx, Multiset.card_cons]
    · push Not at hroom
      rw [replaceFirst_of_absent hroom]
      exact Nat.le_succ _

theorem Client.filled_store_le (c : Client) (k : Kind) (h : Handle) :
    (c.store k h).filled ≤ c.filled + 1 := by
  have hstore := c.filled_store k h
  have hle := card_replaceFirst_le (c.cells k) h
  omega

theorem Client.filled_drop_le (c : Client) (k : Kind) (h : Handle) :
    (c.drop k h).filled ≤ c.filled := by
  have hdrop := c.filled_drop k h
  have hle := Multiset.card_le_card (Multiset.erase_le h (occupied (c.cells k)))
  rw [occupied_clear] at hdrop
  omega

/-- Taking an empty slot records one handle at most. -/
theorem Client.filled_occupy_le (hcells : ∀ k, c.cells k = 0) (p : Pid) (h : Handle) :
    (c.occupy p h).filled ≤ 1 := by
  have hupdate := occupied_update (0 : Fin 10 → Handle) 0 h
  rw [Pi.zero_apply, cell_zero, occupied_zero, add_zero, zero_add] at hupdate
  calc
    (c.occupy p h).filled = (occupied (Function.update (0 : Fin 10 → Handle) 0 h)).card := by
      rw [Client.filled, Client.occupy_cells, Client.occupy_cells, if_pos rfl,
        if_neg (by decide), hcells, hcells, occupied_zero, Multiset.card_zero, Nat.add_zero]
    _ = (cell h).card := by rw [hupdate]
    _ ≤ 1 := by
      unfold cell
      split <;> simp

namespace Covers

theorem zero : Covers Clients.zero where
  unique := uniquePids_zero
  filled i := by
    have hcells : ∀ k, (Clients.zero i).cells k = 0 := fun k => by cases k <;> rfl
    rw [Client.filled, hcells, hcells, occupied_zero]
    exact Nat.zero_le _
  bound _ := (by decide : (0 : Word).toNat < 2 ^ 31)
  unused _ _ k := by cases k <;> rfl

/-- Writing one slot. -/
theorem update (ht : Covers t) (hu : UniquePids (Function.update t i c))
    (hfilled : c.filled ≤ c.refs.toNat) (hbound : c.refs.toNat < 2 ^ 31)
    (hunused : c.pid = 0 → ∀ k, c.cells k = 0) : Covers (Function.update t i c) := by
  refine ⟨hu, ?_, ?_, ?_⟩
  · exact (Function.forall_update_iff t fun _ x => x.filled ≤ x.refs.toNat).mpr
      ⟨hfilled, fun j _ => ht.filled j⟩
  · exact (Function.forall_update_iff t fun _ x => x.refs.toNat < 2 ^ 31).mpr
      ⟨hbound, fun j _ => ht.bound j⟩
  · exact (Function.forall_update_iff t fun _ x => x.pid = 0 → ∀ k, x.cells k = 0).mpr
      ⟨hunused, fun j _ => ht.unused j⟩

/-- Counting a handle in keeps the count above the entries, recorded or not. -/
theorem store (ht : Covers t) (hp : p ≠ 0) (hi : getClient t p = some i)
    (hbound : (t i).refs.toNat + 1 < 2 ^ 31) (k : Kind) (h : Handle) :
    Covers (Function.update t i ((t i).store k h)) := by
  have hpid := pid_of_getClient hi
  have hrefs : ((t i).store k h).refs.toNat = (t i).refs.toNat + 1 := by
    rw [Client.store_refs, Word.toNat_succ (by omega)]
  apply ht.update
  · exact ht.unique.update_of_pid (Or.inl (Client.store_pid ..))
  · calc
      ((t i).store k h).filled ≤ (t i).filled + 1 := Client.filled_store_le _ k h
      _ ≤ (t i).refs.toNat + 1 := Nat.succ_le_succ (ht.filled i)
      _ = ((t i).store k h).refs.toNat := hrefs.symm
  · rwa [hrefs]
  · rw [Client.store_pid, hpid]
    exact fun h0 => absurd h0 hp

theorem register (ht : Covers t) (hcovered : TableCall.Covered t (.register k p h)) :
    Covers (dceRegister k t p h) := by
  obtain ⟨hp, hbound⟩ := hcovered
  cases hi : getClient t p with
  | some i =>
      have hstore := ht.store hp hi (hbound i (pid_of_getClient hi)) k h
      cases k with
      | engine => simpa only [dceRegister, dceRegisterEngine, hi] using hstore
      | codec => simpa only [dceRegister, dceRegisterCodec, hi] using hstore
  | none =>
      cases k with
      | codec => simpa only [dceRegister, dceRegisterCodec, hi] using ht
      | engine =>
          cases hfree : getClient t 0 with
          | none => simpa only [dceRegister, dceRegisterEngine, hi, hfree] using ht
          | some i =>
              simp only [dceRegister, dceRegisterEngine, hi, hfree]
              have hcells := ht.unused i (pid_of_getClient hfree)
              apply ht.update
              · exact ht.unique.update_fresh hi (Client.occupy_pid ..)
              · exact Client.filled_occupy_le hcells p h
              · exact (by decide : (1 : Word).toNat < 2 ^ 31)
              · exact fun h0 => absurd h0 hp

theorem unregister (ht : Covers t) (hcovered : TableCall.Covered t (.unregister k p h)) :
    Covers (dceUnregister k t p h) := by
  obtain ⟨hp, hheld⟩ := hcovered
  cases hi : getClient t p with
  | none => rwa [dceUnregister_absent k h hi]
  | some i =>
      have hpid := pid_of_getClient hi
      have hle := ht.filled i
      have hbound := ht.bound i
      -- the count stays above the entries in both cases
      have hcount : 0 < (t i).refs.toNat ∧ ((t i).drop k h).filled ≤ (t i).refs.toNat - 1 := by
        rcases hheld i hpid with ⟨hh, hmem⟩ | hlt
        · have := Client.filled_drop_of_mem (c := t i) (k := k) (mem_occupied.mpr ⟨hh, hmem⟩)
          omega
        · have := (t i).filled_drop_le k h
          omega
      have hrefs : ((t i).drop k h).refs.toNat = (t i).refs.toNat - 1 := by
        rw [Client.drop_refs, Word.toNat_pred hcount.1]
      have hfilled : (((t i).drop k h).settle k).filled = ((t i).drop k h).filled := by
        simp only [Client.filled, Client.settle_cells]
      rw [dceUnregister_found k h hi]
      apply ht.update
      · apply ht.unique.update_of_pid
        simpa using ((t i).drop k h).settle_pid_or k
      · rw [hfilled, Client.settle_refs, hrefs]
        exact hcount.2
      · rw [Client.settle_refs, hrefs]
        omega
      · intro h0
        rw [Client.settle_pid] at h0
        split at h0
        · next hfreed =>
            intro l
            have hzero := (Word.eq_zero_iff _).mp hfreed.2
            apply Client.cells_of_filled
            rw [hfilled]
            omega
        · rw [Client.drop_pid, hpid] at h0
          exact absurd h0 hp

theorem step {call : TableCall} (ht : Covers t) (hcovered : call.Covered t) :
    Covers (call.step t) := by
  cases call with
  | register k pid h => exact ht.register hcovered
  | unregister k pid h => exact ht.unregister hcovered

end Covers

end Step

/-- Unregistering a handle that a client does not hold leaves the table alone
exactly when the client has no slot; repeating an unregistration changes nothing
exactly when the first one left the client without a slot; and in every run in
which each unregistration is covered no count becomes negative and no slot is
unused while it has an entry. -/
theorem stray_release_iff (k : Kind) (t : Clients) (p : Pid) (h : Handle)
    (calls : List TableCall) :
    (p ≠ 0 → ¬Holds t p k h → (dceUnregister k t p h = t ↔ ∀ i, (t i).pid ≠ p)) ∧
    (p ≠ 0 →
      (dceUnregister k (dceUnregister k t p h) p h = dceUnregister k t p h ↔
        ∀ i, (t i).pid = p → getClient t p = some i ∧ k = .engine ∧ (t i).refs = 1)) ∧
    (Run TableCall.step TableCall.Covered Clients.zero calls →
      ∀ i, 0 ≤ (final TableCall.step Clients.zero calls i).refs.toInt ∧
        ((final TableCall.step Clients.zero calls i).pid = 0 →
          (final TableCall.step Clients.zero calls i).engines = 0 ∧
          (final TableCall.step Clients.zero calls i).codecs = 0)) := by
  refine ⟨?_, ?_, ?_⟩
  · exact fun _ _ => dceUnregister_eq_self_iff
  · exact fun hp => dceUnregister_eq_self_iff.trans (slotless_unregister_iff hp)
  · intro run i
    have ht : Covers (final TableCall.step Clients.zero calls) :=
      run.invariant Covers.zero fun _ _ ht hcovered => ht.step hcovered
    constructor
    · rw [BitVec.toInt_eq_toNat_of_lt (by have := ht.bound i; omega)]
      exact Int.natCast_nonneg _
    · exact fun hpid => ⟨ht.unused i hpid .engine, ht.unused i hpid .codec⟩

/-- Process 7 opens eleven engines, one more than its slot takes, and closes the last. -/
def closesUnrecorded : List TableCall :=
  (List.range 11).map (fun n => .register .engine 7 (BitVec.ofNat 32 (100 + n))) ++
    [.unregister .engine 7 110]

theorem stray_release_iff_unrecorded :
    (∀ i j, (final TableCall.step Clients.zero (closesUnrecorded.take 11) i).engines j ≠ 110) ∧
    ∀ i, 0 ≤ (final TableCall.step Clients.zero closesUnrecorded i).refs.toInt ∧
      ((final TableCall.step Clients.zero closesUnrecorded i).pid = 0 →
        (final TableCall.step Clients.zero closesUnrecorded i).engines = 0 ∧
        (final TableCall.step Clients.zero closesUnrecorded i).codecs = 0) :=
  ⟨by decide +kernel,
    (stray_release_iff .engine Clients.zero 7 110 closesUnrecorded).2.2 (by decide +kernel)⟩

/-- Process 7 opens two engines and closes a handle it never had twice. -/
def strayCloses : List TableCall :=
  [.register .engine 7 100, .register .engine 7 101, .unregister .engine 7 555,
    .unregister .engine 7 555]

/-- Process 7 opens an engine and deletes a codec it never had twice. -/
def strayDeletes : List TableCall :=
  [.register .engine 7 100, .unregister .codec 7 555, .unregister .codec 7 555]

/-- The first stray close changes the table and the second one changes it again,
giving the slot up with both engines in it; stray deletes make a count negative. -/
theorem stray_release_changes :
    ¬Holds (final TableCall.step Clients.zero (strayCloses.take 2)) 7 .engine 555 ∧
    final TableCall.step Clients.zero (strayCloses.take 3) ≠
      final TableCall.step Clients.zero (strayCloses.take 2) ∧
    final TableCall.step Clients.zero strayCloses ≠
      final TableCall.step Clients.zero (strayCloses.take 3) ∧
    (final TableCall.step Clients.zero strayCloses 0).pid = 0 ∧
    (final TableCall.step Clients.zero strayCloses 0).engines 0 = 100 ∧
    (final TableCall.step Clients.zero strayCloses 0).engines 1 = 101 ∧
    (final TableCall.step Clients.zero strayDeletes 0).refs.toInt = -1 := by
  refine ⟨?_, ?_, ?_, by decide +kernel, by decide +kernel, by decide +kernel, by decide +kernel⟩
  · rintro ⟨_, i, hi, j, hj⟩
    have hcells : ∀ i j, (final TableCall.step Clients.zero (strayCloses.take 2) i).engines j ≠
        555 := by
      decide +kernel
    exact hcells i j hj
  · intro heq
    exact absurd (congrArg (fun t : Clients => (t 0).refs) heq) (by decide +kernel)
  · intro heq
    exact absurd (congrArg (fun t : Clients => (t 0).refs) heq) (by decide +kernel)

end Libdce.Tracking
