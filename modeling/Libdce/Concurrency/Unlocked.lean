import Libdce.Concurrency.Expectations
import Mathlib.Data.Fintype.EquivFin

/-!
# Without a critical section

The bookkeeping is exact although its functions may be interrupted at every
access, as long as a client has one event handled at a time and the first open
of a client overlaps neither another first open nor a cleanup: whenever no thread
is in the middle of an event of a client, the table records for it, and the server
has released on its behalf, what a server does that handles every event at once.
As for that server, the first open of a client has to find an unused slot when it
arrives, and no slot may be given up with handles left in it: the next client
would inherit them.
-/

namespace Libdce.Concurrency.Unlocked

open Tracking Foundation.SlotArray Foundation.GuardedRuns

section Accesses

variable {t t' : Clients} {p : Pid} {c : Fin 10} {o : Option Client} {todo : List CeCall}

namespace Writes

theorem unique (h : Writes p t c t') (hu : UniquePids t) : UniquePids t' := by
  obtain ⟨x, rfl, hpid | ⟨hpid, hnone⟩, hx⟩ := h
  · exact hu.update_of_pid (hpid ▸ hx)
  · rcases hx with hx | hx
    · exact hu.update_fresh hnone hx
    · exact hu.update_of_pid (Or.inr hx)

theorem onlyTouches (h : Writes p t c t') : OnlyTouches p t t' := by
  obtain ⟨x, rfl, hc, hx⟩ := h
  exact OnlyTouches.update (hc.imp_right And.left) hx

theorem elsewhere (h : Writes p t c t') {i : Fin 10} (hi : i ≠ c) : t' i = t i := by
  obtain ⟨x, rfl, -, -⟩ := h
  exact Function.update_of_ne hi _ _

/-- What is recorded for the client is what its slot holds. -/
theorem record_eq (h : Writes p t c t') (hu : UniquePids t) (hp : p ≠ 0) :
    record t' p = (t' c).kept := by
  obtain ⟨x, rfl, hpid | ⟨hpid, hnone⟩, hx⟩ := h
  · have hfound : getClient t p = some c := by
      rw [← hpid]
      exact hu.getClient_pid (hpid ▸ hp)
    rw [record_update hu hp hfound hx, Function.update_self]
  · rw [Function.update_self]
    rcases hx with hx | hx
    · rw [record_update_fresh hnone hx, Client.kept, if_neg (hx ▸ hp)]
    · have hnone' : getClient (Function.update t c x) p = none := by
        rw [getClient_update_of_ne (hpid ▸ hp.symm) (hx ▸ hp.symm), hnone]
      rw [record_eq_none_iff.mpr hnone', Client.kept, if_pos hx]

end Writes

/-- A handler that takes over an unused slot leaves it blank until the end. -/
theorem Job.Expects.blank_slot {job : Job} {place : Place} (h : job.Expects t o place)
    (hp : job.pid ≠ 0) (hc : place.slot = some c) (hpid : (t c).pid = 0) : (t c).Blank := by
  rcases h.pid_slot hc with hown | ⟨-, hclaims⟩
  · exact absurd (hown.symm.trans hpid) hp
  · cases place with
    | claimPid c' => exact Option.some.inj hc ▸ h.2.2.2.1
    | claimRefs c' => exact Option.some.inj hc ▸ h.2.2.1
    | claimCell c' => exact Option.some.inj hc ▸ h.2.2.2.1
    | lookUp i => cases hc
    | lookUpFree i => cases hc
    | _ => exact absurd hclaims id

/-- A function that takes over an unused slot has been about to do so. -/
theorem Place.claims_of_advance {job : Job} {place place' : Place} (h : job.Expects t o place)
    (hstep : job.advance t place = (t', some place')) (hclaims : place'.Claims t' job) :
    place.Claims t job := by
  cases place with
  | lookUp i =>
      rcases h with ⟨c, hc, hic, -⟩ | ⟨hnone, hopens, -⟩ | ⟨hnone, hopens, -⟩
      · by_cases hi : i < 10
        · by_cases hpid : (t ⟨i, hi⟩).pid = job.pid
          · simp only [Job.advance, dif_pos hi, if_pos hpid, Prod.mk.injEq, Option.some.injEq] at hstep
            obtain ⟨rfl, rfl⟩ := hstep
            unfold Job.found at hclaims
            split at hclaims <;> exact absurd hclaims id
          · simp only [Job.advance, dif_pos hi, if_neg hpid, Prod.mk.injEq, Option.some.injEq] at hstep
            obtain ⟨rfl, rfl⟩ := hstep
            exact hclaims
        · exact absurd (hic.trans_lt c.isLt) hi
      · exact ⟨hopens, hnone⟩
      · by_cases hi : i < 10
        · by_cases hpid : (t ⟨i, hi⟩).pid = job.pid
          · exact absurd hpid (getClient_eq_none_iff.mp hnone _)
          · simp only [Job.advance, dif_pos hi, if_neg hpid, Prod.mk.injEq, Option.some.injEq] at hstep
            obtain ⟨rfl, rfl⟩ := hstep
            exact hclaims
        · simp [Job.advance, dif_neg hi, Job.absent_of_not_opens hopens] at hstep
  | lookUpFree i => trivial
  | claimPid c => trivial
  | claimRefs c => trivial
  | claimCell c => trivial
  | loadRefs c =>
      simp only [Job.advance, Prod.mk.injEq, Option.some.injEq] at hstep
      obtain ⟨rfl, rfl⟩ := hstep
      exact hclaims
  | storeRefs c refs =>
      simp only [Job.advance, Job.counted, Prod.mk.injEq] at hstep
      obtain ⟨-, hnext⟩ := hstep
      split at hnext
      · cases hnext
        exact hclaims
      · cases hnext
        exact hclaims
      · cases hnext
  | scan c j =>
      simp only [Job.advance, Job.scanned] at hstep
      split at hstep
      · split at hstep <;> (cases hstep; exact hclaims)
      · split at hstep
        · cases hstep
        · cases hstep
          exact hclaims
  | write c j =>
      simp only [Job.advance, Job.scanned, Prod.mk.injEq] at hstep
      obtain ⟨-, hnext⟩ := hstep
      split at hnext
      · cases hnext
      · cases hnext
        exact hclaims
  | testRefs c =>
      simp only [Job.advance, Prod.mk.injEq] at hstep
      obtain ⟨-, hnext⟩ := hstep
      split at hnext
      · cases hnext
        exact hclaims
      · cases hnext
  | vacate c => cases hstep

namespace Task

variable {task task' : Task} {r : Clients × Option Task × List CeCall} {made : List CeCall}

/-- What an access does to the table concerns the slot of the task only. -/
theorem Advances.table (h : task.Advances t o todo r) (hu : UniquePids t) :
    UniquePids r.1 ∧ OnlyTouches task.pid t r.1 ∧ ∀ i, task.slot ≠ some i → r.1 i = t i := by
  have hsame : UniquePids t ∧ OnlyTouches task.pid t t ∧ ∀ i, task.slot ≠ some i → t i = t i :=
    ⟨hu, OnlyTouches.refl _ t, fun _ _ => rfl⟩
  have hwrites : ∀ {c t'}, task.slot = some c → Writes task.pid t c t' →
      UniquePids t' ∧ OnlyTouches task.pid t t' ∧ ∀ i, task.slot ≠ some i → t' i = t i := by
    intro c t' hc hw
    exact ⟨hw.unique hu, hw.onlyTouches,
      fun i hi => hw.elsewhere fun hic => hi (hc.trans (congrArg some hic.symm))⟩
  obtain ⟨t', _ | task', made⟩ := r
  · rcases h.2 with ⟨-, rfl, -⟩ | ⟨c, hc, -, hw⟩
    · exact hsame
    · exact hwrites hc hw
  · rcases h.2.2.2 with ⟨rfl, -⟩ | ⟨c, hc, -, hw⟩
    · exact hsame
    · exact hwrites hc hw

theorem claims_congr (hget : getClient t' task.pid = getClient t task.pid) :
    task.Claims t' ↔ task.Claims t := by
  cases task with
  | handler job place =>
      have hjob : getClient t' job.pid = getClient t job.pid := hget
      cases place with
      | lookUp i => simp only [Claims, Place.Claims, hjob]
      | _ => exact Iff.rfl
  | _ => exact Iff.rfl

theorem not_cleans_of_claims (h : task.Claims t) : ¬task.Cleans := by
  cases task with
  | handler job place => exact id
  | _ => exact absurd h id

/-- A task that takes over an unused slot has been about to do so. -/
theorem claims_of_advance (h : task.Expects t o todo)
    (hstep : task.advance t = (t', some task', made)) (hclaims : task'.Claims t') :
    task.Claims t := by
  cases task with
  | handler job place =>
      rcases hresult : job.advance t place with ⟨t₁, _ | place'⟩
      · simp [advance, hresult] at hstep
      · simp only [advance, hresult, Prod.mk.injEq, Option.some.injEq] at hstep
        obtain ⟨rfl, rfl, -⟩ := hstep
        exact Place.claims_of_advance h.1 hresult hclaims
  | lookUp p i =>
      simp only [advance] at hstep
      split at hstep
      · split at hstep <;> (cases hstep; exact absurd hclaims id)
      · cases hstep
  | test p k c i =>
      simp only [advance] at hstep
      split at hstep
      · split at hstep <;> (cases hstep; exact absurd hclaims id)
      · cases k <;> cases hstep
        exact absurd hclaims id
  | pick p k c i =>
      cases hstep
      exact absurd hclaims id
  | nested p k c i h place =>
      simp only [advance] at hstep
      split at hstep <;> (cases hstep; exact absurd hclaims id)

/-- A slot that has just been found carries the pid of the client, or is taken over. -/
theorem pid_new_slot (h : task'.Expects t' o todo) (hslot : task.slot = none)
    (hslot' : task'.slot = some c) (hstep : task.advance t = (t', some task', made)) :
    (t' c).pid = task'.pid ∨ task'.Claims t' := by
  cases task with
  | handler job place =>
      rcases hresult : job.advance t place with ⟨t₁, _ | place'⟩
      · simp [advance, hresult] at hstep
      · simp only [advance, hresult, Prod.mk.injEq, Option.some.injEq] at hstep
        obtain ⟨rfl, rfl, -⟩ := hstep
        exact (h.1.pid_slot hslot').imp_right And.right
  | lookUp p i =>
      simp only [advance] at hstep
      split at hstep
      · split at hstep
        · next hpid =>
            cases hstep
            exact Or.inl (Option.some.inj hslot' ▸ hpid)
        · cases hstep
          cases hslot'
      · cases hstep
  | test p k c i => cases hslot
  | pick p k c i => cases hslot
  | nested p k c i h place => cases hslot

/-- A slot that is unused while a handler works on it is blank. -/
theorem Expects.blank_slot (h : task.Expects t o todo) (hp : task.pid ≠ 0)
    (hc : task.slot = some c) (hpid : (t c).pid = 0) : (t c).Blank ∨ task.Cleans := by
  cases task with
  | handler job place => exact Or.inl (h.1.blank_slot hp hc hpid)
  | _ => exact Or.inr trivial

end Task

end Accesses

variable {ι : Type*}

/-- What concerns a client. -/
def State.observe (s : State ι) (p : Pid) : Option Client × List CeCall :=
  (record s.clients p, releasedFor p s.calls)

/-- What is known of the state in the middle of a run. -/
structure Sim (s : State ι) : Prop where
  unique : UniquePids s.clients
  tidy : s.spec.Tidy
  nonzero : ∀ w, ∀ task ∈ s.tasks w, task.pid ≠ 0
  pids : ∀ w w', ∀ task ∈ s.tasks w, ∀ task' ∈ s.tasks w', task.pid = task'.pid → w = w'
  slots : ∀ w w', ∀ task ∈ s.tasks w, ∀ task' ∈ s.tasks w', ∀ c, task.slot = some c →
    task'.slot = some c → w = w'
  claims : ∀ w w', ∀ task ∈ s.tasks w, ∀ task' ∈ s.tasks w', task.Claims s.clients → w ≠ w' →
    ¬task'.Claims s.clients ∧ ¬task'.Cleans
  idle : ∀ p, p ≠ 0 → s.Idle p → s.observe p = s.spec.observe p
  busy : ∀ w, ∀ task ∈ s.tasks w, ∃ o todo, task.Expects s.clients o todo ∧
    (o.bind Client.kept, releasedFor task.pid s.calls ++ todo) = s.spec.observe task.pid ∧
    ∀ x ∈ o, x.pid = 0 → x.Blank
  blank : ∀ i, (s.clients i).pid = 0 → (∀ w, ∀ task ∈ s.tasks w, task.slot = some i → ¬task.Cleans) →
    (s.clients i).Blank

namespace Sim

variable {s : State ι} {w : ι} {task : Task}

theorem zero : Sim (State.zero : State ι) where
  unique := uniquePids_zero
  tidy := Attributed.Tidy.zero
  nonzero := by simp [State.zero]
  pids := by simp [State.zero]
  slots := by simp [State.zero]
  claims := by simp [State.zero]
  idle _ _ _ := rfl
  busy := by simp [State.zero]
  blank _ _ _ := ⟨fun _ => rfl, fun _ => Or.inr rfl⟩

/-- No cleanup is going on while a slot is taken over, so that every unused one is blank. -/
theorem unusedBlank (hs : Sim s) (htask : task ∈ s.tasks w) (hclaims : task.Claims s.clients) :
    UnusedBlank s.clients := by
  intro i hi
  apply hs.blank i hi
  intro w' task' htask' _
  by_cases hw : w = w'
  · subst w'
    rw [Option.mem_unique htask' htask]
    exact Task.not_cleans_of_claims hclaims
  · exact (hs.claims w w' task htask task' htask' hclaims hw).2

/-- What a step of one thread means to the others: the table changes in its slot only,
and no unused slot is lost unless it takes one over. -/
structure Apart (s : State ι) (w : ι) (task : Task) (t' : Clients) : Prop where
  unique : UniquePids t'
  touches : OnlyTouches task.pid s.clients t'
  elsewhere : ∀ i, task.slot ≠ some i → t' i = s.clients i

section Advance

variable {w' : ι} {task' : Task} {t' : Clients} {o : Option Client} {todo : List CeCall}

theorem getClient_other (hs : Sim s) (htask : task ∈ s.tasks w) (htask' : task' ∈ s.tasks w')
    (hw : w ≠ w') (hapart : Apart s w task t') :
    ∀ i, ((t' i).pid = task'.pid ↔ (s.clients i).pid = task'.pid) ∧
      ((s.clients i).pid = task'.pid → t' i = s.clients i) := by
  have hp' := hs.nonzero w' task' htask'
  have hne : task.pid ≠ task'.pid := fun heq => hw (hs.pids w w' task htask task' htask' heq)
  intro i
  have hsame : (s.clients i).pid = task'.pid → t' i = s.clients i := by
    intro hi
    exact hapart.touches.other (hi ▸ hp') (hi ▸ hne.symm)
  refine ⟨⟨?_, fun hi => by rwa [hsame hi]⟩, hsame⟩
  intro hi
  rcases hapart.touches i with heq | ⟨-, hpid | hpid⟩
  · rwa [heq] at hi
  · exact absurd (hpid.symm.trans hi) hne
  · exact absurd (hi.symm.trans hpid) hp'

/-- The other threads expect what they did. -/
theorem expects_other (hs : Sim s) (htask : task ∈ s.tasks w) (htask' : task' ∈ s.tasks w')
    (hw : w ≠ w') (hapart : Apart s w task t') {o' : Option Client} {todo' : List CeCall}
    (h : task.Expects s.clients o todo) (h' : task'.Expects s.clients o' todo') :
    task'.Expects t' o' todo' := by
  have hother := hs.getClient_other htask htask' hw hapart
  apply h'.frame (fun i => (hother i).1) (fun i => (hother i).2)
  · intro c hc
    exact hapart.elsewhere c fun hslot => hw (hs.slots w w' task htask task' htask' c hslot hc)
  · intro hclaims i hi
    -- while a slot is taken over, the other threads write to slots in use
    have hexcluded := hs.claims w' w task' htask' task htask hclaims hw.symm
    by_cases hslot : task.slot = some i
    · rcases h.pid_slot hslot with hpid | ⟨-, hclaims' | hcleans⟩
      · exact absurd (hpid.symm.trans hi) (hs.nonzero w task htask)
      · exact absurd hclaims' hexcluded.1
      · exact absurd hcleans hexcluded.2
    · rwa [hapart.elsewhere i hslot]

theorem claims_other (hs : Sim s) (htask : task ∈ s.tasks w) (htask' : task' ∈ s.tasks w')
    (hw : w ≠ w') (hapart : Apart s w task t') : task'.Claims t' ↔ task'.Claims s.clients :=
  Task.claims_congr (getClient_congr fun i => (hs.getClient_other htask htask' hw hapart i).1)

/-- An access of a thread, with what its task expects. -/
structure Access (s : State ι) (w : ι) (task : Task) (t' : Clients) (next : Option Task)
    (made : List CeCall) (o : Option Client) (todo : List CeCall) : Prop where
  mem : task ∈ s.tasks w
  step : task.advance s.clients = (t', next, made)
  expects : task.Expects s.clients o todo
  promised : (o.bind Client.kept, releasedFor task.pid s.calls ++ todo) = s.spec.observe task.pid
  blank : ∀ x ∈ o, x.pid = 0 → x.Blank
  advances : task.Advances s.clients o todo (t', next, made)

namespace Access

variable {next : Option Task} {made : List CeCall}

theorem apart (hs : Sim s) (h : Access s w task t' next made o todo) : Apart s w task t' := by
  obtain ⟨hunique, htouches, helsewhere⟩ := h.advances.table hs.unique
  exact ⟨hunique, htouches, helsewhere⟩

/-- The task that goes on is still about its client. -/
theorem goes_on (h : Access s w task t' next made o todo) {x : Task} (hx : x ∈ next) :
    x.pid = task.pid ∧ (x.Claims t' → task.Claims s.clients) ∧ (x.Cleans → task.Cleans) := by
  obtain rfl := hx
  obtain ⟨-, hpid, hcleans, -⟩ := h.advances
  exact ⟨hpid, Task.claims_of_advance h.expects h.step, hcleans.mp⟩

/-- A task that goes on does not come to a slot that another thread works on. -/
theorem slot_ne (hs : Sim s) (h : Access s w task t' next made o todo) {x : Task} (hx : x ∈ next)
    (htask' : task' ∈ s.tasks w') (hw : w ≠ w') {c : Fin 10} (hc : x.slot = some c) :
    task'.slot ≠ some c := by
  intro hc'
  obtain rfl := hx
  obtain ⟨⟨todo', -, hexpects⟩, hpid, -, hmoves⟩ := h.advances
  rcases hmoves with ⟨rfl, hnone | hkept⟩ | ⟨c', hslot, hslot', -⟩
  · have hne : task.pid ≠ task'.pid := fun heq => hw (hs.pids w w' task h.mem task' htask' heq)
    have hp := hs.nonzero w task h.mem
    obtain ⟨o', todo', hexpects', -⟩ := hs.busy w' task' htask'
    rcases Task.pid_new_slot hexpects hnone hc h.step with hown | hclaims
    · rcases hexpects'.pid_slot hc' with hother | ⟨hzero, -⟩
      · exact hne (hpid.symm.trans (hown.symm.trans hother))
      · exact hp (hpid.symm.trans (hown.symm.trans hzero))
    · have hclaims' := (h.goes_on rfl).2.1 hclaims
      obtain ⟨hnotClaims, hnotCleans⟩ := hs.claims w w' task h.mem task' htask' hclaims' hw
      rcases hexpects'.pid_slot hc' with hother | ⟨-, hclaims | hcleans⟩
      · rcases hexpects.pid_slot hc with hown | ⟨hzero, -⟩
        · exact hne (hpid.symm.trans (hown.symm.trans hother))
        · exact hs.nonzero w' task' htask' (hother.symm.trans hzero)
      · exact hnotClaims hclaims
      · exact hnotCleans hcleans
  · exact hw (hs.slots w w' task h.mem task' htask' c (hkept.symm.trans hc) hc')
  · obtain rfl : c' = c := Option.some.inj (hslot'.symm.trans hc)
    exact hw (hs.slots w w' task h.mem task' htask' c' hslot hc')

/-- When the task is done, its client is as it should be. -/
theorem done (hs : Sim s) (h : Access s w task t' none made o todo) :
    (record t' task.pid, releasedFor task.pid s.calls ++ made) = s.spec.observe task.pid := by
  have hp := hs.nonzero w task h.mem
  obtain ⟨rfl, hend⟩ := h.advances
  rw [← h.promised]
  congr 1
  rcases hend with ⟨-, rfl, hnone, rfl⟩ | ⟨c, -, rfl, hwrites⟩
  · exact record_eq_none_iff.mpr hnone
  · exact hwrites.record_eq hs.unique hp

/-- Nothing is left in a slot that is given up. -/
theorem unused_blank (hs : Sim s) (h : Access s w task t' next made o todo) {i : Fin 10}
    (hslot : task.slot = some i) (hi : (t' i).pid = 0)
    (hclean : ∀ x ∈ next, x.slot = some i → ¬x.Cleans) : (t' i).Blank := by
  have hp := hs.nonzero w task h.mem
  cases next with
  | none =>
      obtain ⟨-, ⟨hnone, -⟩ | ⟨c, hc, ho, -⟩⟩ := h.advances
      · exact absurd (hnone.symm.trans hslot) (Option.some_ne_none _).symm
      · obtain rfl : c = i := Option.some.inj (hc.symm.trans hslot)
        exact h.blank _ ho hi
  | some x =>
      obtain ⟨⟨todo', -, hexpects⟩, hpid, -, hmoves⟩ := h.advances
      have hslot' : x.slot = some i := by
        rcases hmoves with ⟨-, hnone | hkept⟩ | ⟨c, hc, hc', -⟩
        · exact absurd (hnone.symm.trans hslot) (Option.some_ne_none _).symm
        · exact hkept.trans hslot
        · exact hc'.trans (hc.symm.trans hslot)
      exact (hexpects.blank_slot (hpid ▸ hp) hslot' hi).resolve_right (hclean x rfl hslot')

end Access

end Advance

section Steps

variable [DecidableEq ι] {w' : ι} {task' : Task} {next : Option Task}

theorem mem_update (tasks : ι → Option Task) : task' ∈ Function.update tasks w next w' ↔
    w' = w ∧ task' ∈ next ∨ w' ≠ w ∧ task' ∈ tasks w' := by
  by_cases hw : w' = w
  · subst w'
    simp
  · simp [hw]

variable {t' : Clients} {made : List CeCall} {o : Option Client} {todo : List CeCall}

/-- Where a task of the next state comes from. -/
theorem Access.origin (hs : Sim s) (h : Access s w task t' next made o todo)
    (htask' : task' ∈ Function.update s.tasks w next w') :
    ∃ y ∈ s.tasks w', y.pid = task'.pid ∧ (task'.Claims t' → y.Claims s.clients) ∧
      (task'.Cleans → y.Cleans) := by
  rcases (mem_update s.tasks).mp htask' with ⟨rfl, hnext⟩ | ⟨hw, hold⟩
  · obtain ⟨hpid, hclaims, hcleans⟩ := h.goes_on hnext
    exact ⟨task, h.mem, hpid.symm, hclaims, hcleans⟩
  · exact ⟨task', hold, rfl, (hs.claims_other h.mem hold hw.symm (h.apart hs)).mp, id⟩

/-- An access keeps everything. -/
theorem access (hs : Sim s) (h : Access s w task t' next made o todo) :
    Sim { s with
      clients := t'
      tasks := Function.update s.tasks w next
      calls := s.calls ++ made.map (task.pid, ·) } where
  unique := (h.apart hs).unique
  tidy := hs.tidy
  nonzero w' x hx := by
    obtain ⟨y, hy, hpid, -⟩ := h.origin hs hx
    exact hpid ▸ hs.nonzero w' y hy
  pids w₁ w₂ x hx x' hx' heq := by
    obtain ⟨y, hy, hpid, -⟩ := h.origin hs hx
    obtain ⟨y', hy', hpid', -⟩ := h.origin hs hx'
    exact hs.pids w₁ w₂ y hy y' hy' (hpid.trans (heq.trans hpid'.symm))
  claims w₁ w₂ x hx x' hx' hclaims hw := by
    obtain ⟨y, hy, -, hfrom, -⟩ := h.origin hs hx
    obtain ⟨y', hy', -, hfrom', hcleans'⟩ := h.origin hs hx'
    obtain ⟨hnotClaims, hnotCleans⟩ := hs.claims w₁ w₂ y hy y' hy' (hfrom hclaims) hw
    exact ⟨hnotClaims ∘ hfrom', hnotCleans ∘ hcleans'⟩
  slots w₁ w₂ x hx x' hx' c hc hc' := by
    by_contra hw
    rcases (mem_update s.tasks).mp hx with ⟨rfl, hnext⟩ | ⟨hw₁, hold⟩
    · rcases (mem_update s.tasks).mp hx' with ⟨rfl, -⟩ | ⟨-, hold'⟩
      · exact hw rfl
      · exact h.slot_ne hs hnext hold' hw hc hc'
    · rcases (mem_update s.tasks).mp hx' with ⟨rfl, hnext'⟩ | ⟨-, hold'⟩
      · exact h.slot_ne hs hnext' hold hw₁.symm hc' hc
      · exact hw (hs.slots w₁ w₂ x hold x' hold' c hc hc')
  idle p hp hidle := by
    by_cases hown : p = task.pid
    · subst hown
      cases next with
      | none =>
          rw [← h.done hs]
          simp only [State.observe, Attributed.releasedFor_append, Attributed.releasedFor_own]
      | some x =>
          have hmem : x ∈ Function.update s.tasks w (some x) w := by
            rw [Function.update_self]
            rfl
          exact absurd (h.goes_on rfl).1 (hidle w x hmem)
    · have hidle' : s.Idle p := by
        intro w' x hx
        by_cases hw : w' = w
        · subst w'
          rw [Option.mem_unique hx h.mem]
          exact fun heq => hown heq.symm
        · exact hidle w' x ((mem_update s.tasks).mpr (Or.inr ⟨hw, hx⟩))
      rw [← hs.idle p hp hidle']
      simp only [State.observe, Attributed.releasedFor_append,
        Attributed.releasedFor_other (Ne.symm hown), List.append_nil,
        record_of_onlyTouches (h.apart hs).touches hp hown]
  busy w' x hx := by
    rcases (mem_update s.tasks).mp hx with ⟨rfl, hnext⟩ | ⟨hw, hold⟩
    · obtain rfl := hnext
      obtain ⟨⟨todo', hmade, hexpects⟩, hpid, -⟩ := h.advances
      refine ⟨o, todo', hexpects, ?_, h.blank⟩
      rw [hpid, Attributed.releasedFor_append, Attributed.releasedFor_own, List.append_assoc,
        ← hmade]
      exact h.promised
    · obtain ⟨o', todo', hexpects, hpromised, hblank⟩ := hs.busy w' x hold
      refine ⟨o', todo', hs.expects_other h.mem hold hw.symm (h.apart hs) h.expects hexpects, ?_,
        hblank⟩
      have hne : task.pid ≠ x.pid := fun heq => hw (hs.pids w w' task h.mem x hold heq).symm
      rwa [Attributed.releasedFor_append, Attributed.releasedFor_other hne, List.append_nil]
  blank i hi hcleans := by
    by_cases hslot : task.slot = some i
    · apply h.unused_blank hs hslot hi
      intro x hx hx'
      exact hcleans w x ((mem_update s.tasks).mpr (Or.inl ⟨rfl, hx⟩)) hx'
    · have hsame := (h.apart hs).elsewhere i hslot
      have hi : (s.clients i).pid = 0 := hsame ▸ hi
      show (t' i).Blank
      rw [hsame]
      apply hs.blank i hi
      intro w' x hx hx'
      by_cases hw : w' = w
      · subst w'
        rw [Option.mem_unique hx h.mem] at hx'
        exact absurd hx' hslot
      · exact hcleans w' x ((mem_update s.tasks).mpr (Or.inr ⟨hw, hx⟩)) hx'

theorem advance (hs : Sim s) (w : ι) : Sim (s.step (.advance w)) := by
  cases htask : s.tasks w with
  | none => simpa only [State.step, htask] using hs
  | some task =>
      obtain ⟨o, todo, hexpects, hpromised, hblank⟩ := hs.busy w task htask
      have hadvances := hexpects.advance hs.unique (hs.nonzero w task htask) (hs.unusedBlank htask)
      have h : Access s w task (task.advance s.clients).1 (task.advance s.clients).2.1
          (task.advance s.clients).2.2 o todo :=
        ⟨htask, rfl, hexpects, hpromised, hblank, hadvances⟩
      simpa only [State.step, htask] using hs.access h

end Steps

section Start

/-- A client that has a slot on the server that handles events at once has one here, as
long as no slot is being taken over. -/
theorem getClient_of_spec (hs : Sim s) (hclaims : ∀ w, ∀ task ∈ s.tasks w, ¬task.Claims s.clients)
    {p : Pid} (hp : p ≠ 0) (hspec : getClient s.spec.clients p ≠ none) :
    getClient s.clients p ≠ none := by
  have hrecord : (s.spec.observe p).1 ≠ none := fun hnone => hspec (record_eq_none_iff.mp hnone)
  by_cases hidle : s.Idle p
  · rw [← hs.idle p hp hidle] at hrecord
    exact fun hnone => hrecord (record_eq_none_iff.mpr hnone)
  · simp only [State.Idle, not_forall, ne_eq, not_not] at hidle
    obtain ⟨w, task, htask, rfl⟩ := hidle
    obtain ⟨o, todo, hexpects, hpromised, -⟩ := hs.busy w task htask
    rw [← hpromised] at hrecord
    exact hexpects.has_slot hrecord (hclaims w task htask)

/-- There is an unused slot on the server that handles events at once if there is one
here: its slots in use belong to different clients with a slot here. -/
theorem exists_unused_spec (hs : Sim s)
    (hclaims : ∀ w, ∀ task ∈ s.tasks w, ¬task.Claims s.clients)
    (hfree : ∃ i, (s.clients i).pid = 0) : ∃ c, getClient s.spec.clients 0 = some c := by
  apply Option.ne_none_iff_exists'.mp
  intro hnone
  have hused := getClient_eq_none_iff.mp hnone
  have hhere : ∀ c, ∃ i, getClient s.clients (s.spec.clients c).pid = some i := by
    intro c
    apply Option.ne_none_iff_exists'.mp
    apply hs.getClient_of_spec hclaims (hused c)
    rw [hs.tidy.unique.getClient_pid (hused c)]
    exact Option.some_ne_none c
  choose place hplace using hhere
  have hinj : Function.Injective place := by
    intro c c' heq
    apply hs.tidy.unique c c' (hused c)
    rw [← pid_of_getClient (hplace c), ← pid_of_getClient (hplace c'), heq]
  obtain ⟨i, hi⟩ := hfree
  obtain ⟨c, rfl⟩ := Finite.surjective_of_injective hinj i
  exact hused c ((pid_of_getClient (hplace c)).symm.trans hi)

theorem findsSlot (hs : Sim s) {ev : Event} (hidle : s.Idle ev.pid) (hp : ev.pid ≠ 0)
    (hfirst : s.IsFirstOpen ev → (∃ i, (s.clients i).pid = 0) ∧
      ∀ w', ∀ task ∈ s.tasks w', ¬task.Claims s.clients ∧ ¬task.Cleans) :
    FindsSlot s.spec.clients ev := by
  cases ev with
  | engineOpen pid engine =>
      intro he hnone
      have hrecord := congrArg Prod.fst (hs.idle pid hp hidle)
      have hnone' : getClient s.clients pid = none :=
        record_eq_none_iff.mp (hrecord.trans (record_eq_none_iff.mpr hnone))
      obtain ⟨hfree, hothers⟩ := hfirst ⟨he, hnone'⟩
      exact hs.exists_unused_spec (fun w task htask => (hothers w task htask).1) hfree
  | _ => trivial

variable {t : Clients} {ev : Event} {job : Job} {place : Place}

/-- An event that does not come to the table changes nothing. -/
theorem serve_of_ofEvent_none (a : Attributed) (h : Task.ofEvent ev = none) : a.serve ev = a := by
  cases ev with
  | engineOpen pid engine =>
      have he : engine = 0 := by
        by_contra hne
        simp only [Task.ofEvent, ne_eq, hne, not_false_eq_true, if_true, reduceCtorEq] at h
      simp [Attributed.serve, Server.serve, rpcEngineOpen, he]
  | viddec3Create pid engine codec =>
      have hh : codec = 0 := by
        by_contra hne
        simp only [Task.ofEvent, ne_eq, hne, not_false_eq_true, if_true, reduceCtorEq] at h
      simp [Attributed.serve, Server.serve, rpcViddec3Create, hh]
  | viddec3Control pid codec => simp [Attributed.serve, Server.serve]
  | viddec3Process pid codec => simp [Attributed.serve, Server.serve]
  | engineClose pid engine => cases h
  | viddec3Delete pid codec => cases h
  | obit pid => cases h

/-- What the function leaves of what is recorded for its client. -/
def leaves (job : Job) : Option Client → Option Client
  | some c => some (job.outcome c)
  | none =>
      match job.change, job.kind with
      | .register, .engine => some (.first job.pid job.h)
      | _, _ => none

/-- The function that the handler of an event calls leaves the outcome of the event. -/
theorem leaves_of_ofEvent (h : Task.ofEvent ev = some (.handler job place)) :
    place = .lookUp 0 ∧ job.pid = ev.pid ∧
      ∀ r, ev.outcome r = (leaves job r, job.releases) := by
  cases ev with
  | engineOpen pid engine =>
      by_cases he : engine = 0
      · simp [Task.ofEvent, he] at h
      · simp only [Task.ofEvent, ne_eq, he, not_false_eq_true, if_true, Option.some.injEq,
          Task.handler.injEq] at h
        obtain ⟨rfl, rfl⟩ := h
        refine ⟨rfl, rfl, fun r => ?_⟩
        cases r with
        | none => simp only [Event.outcome, Event.applyNone, if_neg he, leaves, Job.releases]
        | some c =>
            simp only [Event.outcome, Event.apply, if_neg he, leaves, Job.outcome, Job.releases]
  | viddec3Create pid engine codec =>
      by_cases hh : codec = 0
      · simp [Task.ofEvent, hh] at h
      · simp only [Task.ofEvent, ne_eq, hh, not_false_eq_true, if_true, Option.some.injEq,
          Task.handler.injEq] at h
        obtain ⟨rfl, rfl⟩ := h
        refine ⟨rfl, rfl, fun r => ?_⟩
        cases r with
        | none => rfl
        | some c =>
            simp only [Event.outcome, Event.apply, if_neg hh, leaves, Job.outcome, Job.releases]
  | engineClose pid engine =>
      cases h
      refine ⟨rfl, rfl, fun r => ?_⟩
      cases r <;> rfl
  | viddec3Delete pid codec =>
      cases h
      refine ⟨rfl, rfl, fun r => ?_⟩
      cases r <;> rfl
  | viddec3Control pid codec => cases h
  | viddec3Process pid codec => cases h
  | obit pid => cases h

/-- A function that has just been called is about to leave what it should. -/
theorem expects_lookUp (hfree : job.Opens → getClient t job.pid = none → ∃ i, (t i).pid = 0) :
    job.Expects t (leaves job (record t job.pid)) (.lookUp 0) := by
  cases hc : getClient t job.pid with
  | some c =>
      rw [record_of_getClient hc]
      exact Or.inl ⟨c, hc, Nat.zero_le _, rfl⟩
  | none =>
      rw [record_eq_none_iff.mpr hc]
      by_cases hopens : job.Opens
      · refine Or.inr (Or.inl ⟨hc, hopens, hfree hopens hc, ?_⟩)
        simp only [leaves, hopens.1, hopens.2]
      · refine Or.inr (Or.inr ⟨hc, hopens, ?_⟩)
        unfold leaves
        dsimp only
        split
        · next hchange hkind => exact absurd ⟨hchange, hkind⟩ hopens
        · rfl

/-- A handler that may take over a slot is that of a first open. -/
theorem isFirstOpen_of_opens (h : Task.ofEvent ev = some (.handler job place))
    (hopens : job.Opens) (hnone : getClient s.clients job.pid = none) : s.IsFirstOpen ev := by
  cases ev with
  | engineOpen pid engine =>
      by_cases he : engine = 0
      · simp [Task.ofEvent, he] at h
      · simp only [Task.ofEvent, ne_eq, he, not_false_eq_true, if_true, Option.some.injEq,
          Task.handler.injEq] at h
        obtain ⟨rfl, -⟩ := h
        exact ⟨he, hnone⟩
  | viddec3Create pid engine codec =>
      by_cases hh : codec = 0
      · simp [Task.ofEvent, hh] at h
      · simp only [Task.ofEvent, ne_eq, hh, not_false_eq_true, if_true, Option.some.injEq,
          Task.handler.injEq] at h
        obtain ⟨rfl, -⟩ := h
        exact absurd hopens.2 Kind.noConfusion
  | engineClose pid engine =>
      cases h
      exact absurd hopens.1 Change.noConfusion
  | viddec3Delete pid codec =>
      cases h
      exact absurd hopens.1 Change.noConfusion
  | viddec3Control pid codec => cases h
  | viddec3Process pid codec => cases h
  | obit pid => cases h

/-- The task that an event starts. -/
structure Starts (s : State ι) (ev : Event) (task : Task) : Prop where
  pid : task.pid = ev.pid
  slot : task.slot = none
  claims : task.Claims s.clients → s.IsFirstOpen ev
  cleans : task.Cleans → ev = .obit ev.pid
  expects : task.Expects s.clients (ev.outcome (record s.clients ev.pid)).1
    (ev.outcome (record s.clients ev.pid)).2

theorem starts (h : Task.ofEvent ev = some task)
    (hfree : s.IsFirstOpen ev → ∃ i, (s.clients i).pid = 0) : Starts s ev task := by
  by_cases hobit : ev = .obit ev.pid
  · generalize ev.pid = pid at hobit
    subst ev
    cases h
    refine ⟨rfl, rfl, fun hclaims => absurd hclaims id, fun _ => rfl, ?_⟩
    cases hc : getClient s.clients pid with
    | some c =>
        simp only [Event.pid, record_of_getClient hc, Event.outcome, Event.apply, Task.Expects]
        exact Or.inl ⟨c, hc, Nat.zero_le _, rfl, rfl⟩
    | none =>
        simp only [Event.pid, record_eq_none_iff.mpr hc, Event.outcome, Event.applyNone, Task.Expects]
        exact Or.inr ⟨hc, trivial, trivial⟩
  · have hhandler : ∃ job place, task = .handler job place := by
      cases ev with
      | engineOpen pid engine =>
          simp only [Task.ofEvent, Option.ite_none_right_eq_some, Option.some.injEq] at h
          exact ⟨_, _, h.2.symm⟩
      | viddec3Create pid engine codec =>
          simp only [Task.ofEvent, Option.ite_none_right_eq_some, Option.some.injEq] at h
          exact ⟨_, _, h.2.symm⟩
      | engineClose pid engine => exact ⟨_, _, (Option.some.inj h).symm⟩
      | viddec3Delete pid codec => exact ⟨_, _, (Option.some.inj h).symm⟩
      | viddec3Control pid codec => cases h
      | viddec3Process pid codec => cases h
      | obit pid => exact absurd rfl hobit
    obtain ⟨job, place, rfl⟩ := hhandler
    obtain ⟨rfl, hpid, houtcome⟩ := leaves_of_ofEvent h
    refine ⟨hpid, rfl, fun hclaims => isFirstOpen_of_opens h hclaims.1 hclaims.2,
      fun hcleans => absurd hcleans id, ?_⟩
    rw [houtcome, ← hpid]
    exact ⟨expects_lookUp fun hopens hnone => hfree (isFirstOpen_of_opens h hopens hnone), rfl⟩

/-- A slot that is given up is blank. -/
theorem blank_of_outcome (hu : UniquePids t) (hp : ev.pid ≠ 0) (h : GivesUpBlank t ev) :
    ∀ x ∈ (ev.outcome (record t ev.pid)).1, x.pid = 0 → x.Blank := by
  intro x hx hpid
  cases hc : getClient t ev.pid with
  | some c =>
      have hgives := h c hc
      rw [serve_found hu hp hc] at hgives
      rw [record_of_getClient hc] at hx
      obtain rfl := Option.some.inj hx
      simpa only [Function.update_self] using hgives (by simpa only [Function.update_self])
  | none =>
      rw [record_eq_none_iff.mpr hc] at hx
      cases ev with
      | engineOpen pid engine =>
          simp only [Event.outcome, Event.applyNone, Option.mem_def,
            Option.ite_none_left_eq_some, Option.some.injEq] at hx
          obtain ⟨-, rfl⟩ := hx
          exact absurd hpid hp
      | _ => cases hx

variable [DecidableEq ι]

/-- The arrival of an event keeps everything. -/
theorem start (hs : Sim s) (h : s.Legal (.start w ev)) : Sim (s.step (.start w ev)) := by
  obtain ⟨hfree, hidle, hp, hgives, hfirst, hobit⟩ := h
  have hfinds := hs.findsSlot hidle hp hfirst
  cases htask : Task.ofEvent ev with
  | none =>
      have hsame : s.step (.start w ev) = s := by
        rw [State.step, htask, serve_of_ofEvent_none _ htask, ← hfree, Function.update_eq_self]
      rwa [hsame]
  | some task =>
      have hstarts : Starts s ev task := starts htask fun hopen => (hfirst hopen).1
      have hmem : ∀ {w' x}, x ∈ Function.update s.tasks w (some task) w' →
          w' = w ∧ x = task ∨ w' ≠ w ∧ x ∈ s.tasks w' := by
        intro w' x hx
        exact ((mem_update s.tasks).mp hx).imp_left fun h => ⟨h.1, (Option.some.inj h.2).symm⟩
      have hother : ∀ {w' x}, x ∈ s.tasks w' → x.pid ≠ task.pid := fun hx =>
        hstarts.pid ▸ hidle _ _ hx
      have hobserve : ∀ {q}, q ≠ 0 → q ≠ ev.pid → (s.spec.serve ev).observe q = s.spec.observe q :=
        fun hq hne => Attributed.observe_other hq hne.symm
      rw [State.step, htask]
      constructor
      · exact hs.unique
      · exact hs.tidy.serve ⟨hp, hfinds, hgives⟩
      · intro w' x hx
        rcases hmem hx with ⟨rfl, rfl⟩ | ⟨-, hold⟩
        · exact hstarts.pid ▸ hp
        · exact hs.nonzero w' x hold
      · intro w₁ w₂ x hx x' hx' heq
        rcases hmem hx with ⟨rfl, rfl⟩ | ⟨-, hold⟩
        · rcases hmem hx' with ⟨rfl, rfl⟩ | ⟨-, hold'⟩
          · rfl
          · exact absurd heq.symm (hother hold')
        · rcases hmem hx' with ⟨rfl, rfl⟩ | ⟨-, hold'⟩
          · exact absurd heq (hother hold)
          · exact hs.pids w₁ w₂ x hold x' hold' heq
      · intro w₁ w₂ x hx x' hx' c hc hc'
        rcases hmem hx with ⟨rfl, rfl⟩ | ⟨-, hold⟩
        · exact absurd (hstarts.slot.symm.trans hc) (Option.some_ne_none c).symm
        · rcases hmem hx' with ⟨rfl, rfl⟩ | ⟨-, hold'⟩
          · exact absurd (hstarts.slot.symm.trans hc') (Option.some_ne_none c).symm
          · exact hs.slots w₁ w₂ x hold x' hold' c hc hc'
      · -- a first open and a cleanup arrive only when they may
        intro w₁ w₂ x hx x' hx' hclaims hw
        rcases hmem hx with ⟨rfl, rfl⟩ | ⟨-, hold⟩
        · rcases hmem hx' with ⟨rfl, rfl⟩ | ⟨-, hold'⟩
          · exact absurd rfl hw
          · exact (hfirst (hstarts.claims hclaims)).2 w₂ x' hold'
        · rcases hmem hx' with ⟨rfl, rfl⟩ | ⟨-, hold'⟩
          · constructor
            · intro hclaims'
              exact ((hfirst (hstarts.claims hclaims')).2 w₁ x hold).1 hclaims
            · intro hcleans
              exact hobit (hstarts.cleans hcleans) w₁ x hold hclaims
          · exact hs.claims w₁ w₂ x hold x' hold' hclaims hw
      · intro q hq hidle'
        have hne : q ≠ ev.pid := by
          rintro rfl
          apply hidle' w task _ hstarts.pid
          exact (mem_update s.tasks).mpr (Or.inl ⟨rfl, rfl⟩)
        have hidle : s.Idle q := by
          intro w' x hx
          apply hidle' w' x
          refine (mem_update s.tasks).mpr (Or.inr ⟨?_, hx⟩)
          rintro rfl
          exact absurd (hfree.symm.trans hx) (Option.some_ne_none x).symm
        exact (hs.idle q hq hidle).trans (hobserve hq hne).symm
      · intro w' x hx
        rcases hmem hx with ⟨rfl, rfl⟩ | ⟨-, hold⟩
        · refine ⟨_, _, hstarts.expects, ?_, ?_⟩
          · have hnow := hs.idle ev.pid hp hidle
            rw [hstarts.pid, Attributed.observe_own hs.tidy hp hfinds, ← hnow]
            rfl
          · have hnow : record s.clients ev.pid = record s.spec.clients ev.pid :=
              congrArg Prod.fst (hs.idle ev.pid hp hidle)
            rw [hnow]
            exact blank_of_outcome hs.tidy.unique hp hgives
        · obtain ⟨o, todo, hexpects, hpromised, hblank⟩ := hs.busy w' x hold
          refine ⟨o, todo, hexpects, ?_, hblank⟩
          rw [hobserve (hs.nonzero w' x hold) (hidle w' x hold)]
          exact hpromised
      · intro i hi hcleans
        apply hs.blank i hi
        intro w' x hx hx'
        apply hcleans w' x _ hx'
        refine (mem_update s.tasks).mpr (Or.inr ⟨?_, hx⟩)
        rintro rfl
        exact absurd (hfree.symm.trans hx) (Option.some_ne_none x).symm

theorem step (hs : Sim s) {action : Action ι} (h : s.Legal action) : Sim (s.step action) := by
  cases action with
  | start w ev => exact hs.start h
  | advance w => exact hs.advance w

end Start

end Sim

section Runs

theorem started_cons (action : Action ι) (actions : List (Action ι)) :
    started (action :: actions) = started [action] ++ started actions := by
  simp only [started, ← List.filterMap_append, List.singleton_append]

variable [DecidableEq ι]

theorem spec_step (s : State ι) (action : Action ι) :
    (s.step action).spec = final Attributed.serve s.spec (started [action]) := by
  cases action with
  | start w ev => rfl
  | advance w =>
      rw [State.step]
      cases s.tasks w <;> rfl

/-- The server that handles every event at once has handled the events that have arrived. -/
theorem spec_final (s : State ι) (actions : List (Action ι)) :
    (final State.step s actions).spec = final Attributed.serve s.spec (started actions) := by
  induction actions generalizing s with
  | nil => rfl
  | cons action actions ih =>
      calc
        (final State.step s (action :: actions)).spec =
            final Attributed.serve (s.step action).spec (started actions) := ih _
        _ = final Attributed.serve s.spec (started (action :: actions)) := by
          rw [spec_step, started_cons action actions, final_append]

variable {actions : List (Action ι)} {p : Pid}

theorem sim_of_run (run : Run State.step State.Legal (State.zero : State ι) actions) :
    Sim (final State.step State.zero actions) := by
  apply run.invariant Sim.zero
  exact fun s action hs h => hs.step h

/-- The functions that look after the table need no lock against each other while events
arrive as they may: one at a time for each client, a first open apart from other first opens
and from cleanups and with an unused slot to be found, and no slot given up with handles in
it. When no thread is in the middle of an event of a client, the table records for it what
it would had every event been handled at once when it arrived, and the same engines and
codecs have been released on its behalf, in the same order. -/
theorem observe_eq_handled_at_once
    (run : Run State.step State.Legal (State.zero : State ι) actions) (hp : p ≠ 0)
    (hidle : (final State.step (State.zero : State ι) actions).Idle p) :
    (final State.step (State.zero : State ι) actions).observe p =
      (final Attributed.serve Attributed.zero (started actions)).observe p := by
  rw [(sim_of_run run).idle p hp hidle, spec_final]
  rfl

end Runs

/-- Process 7 opens an engine, and then process 8. The accesses with which both create a
codec alternate, and so do those of the death of process 7 and of a second open of
process 8. -/
def twoThreads : List (Action Bool) :=
  List.flatten
    [[.start false (.engineOpen 7 1)], List.replicate 15 (.advance false),
      [.start true (.engineOpen 8 2)], List.replicate 16 (.advance true),
      [.start false (.viddec3Create 7 1 3), .start true (.viddec3Create 8 2 4)],
      (List.replicate 6 [.advance false, .advance true]).flatten,
      [.start false (.obit 7), .start true (.engineOpen 8 5)],
      (List.replicate 45 [.advance false, .advance true]).flatten]

theorem observe_eq_handled_at_once_seven :
    (final State.step State.zero twoThreads).observe 7 =
      (final Attributed.serve Attributed.zero (started twoThreads)).observe 7 := by
  have hrun : Run State.step State.Legal State.zero twoThreads := by decide +kernel
  have hidle : (final State.step State.zero twoThreads).Idle 7 := by decide +kernel
  exact observe_eq_handled_at_once hrun (by decide) hidle

end Libdce.Concurrency.Unlocked
