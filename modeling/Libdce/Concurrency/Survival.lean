import Libdce.Concurrency.Interleaving

/-!
# What a dead client leaves behind

Once the obit of a client was handled and its requests are over, nothing that
was opened for it should still be open. The cleanup releases what the slot of
the client records, so it misses an engine or a codec that Codec Engine has
already returned, or is still going to return, to a request of the client that
is not registered when the obit arrives.
-/

namespace Libdce.Concurrency

open Tracking Foundation.GuardedRuns Foundation.SlotArray

namespace State

/-- No client whose obit was handled and that has no request left has anything
open. -/
def NothingSurvives (s : State) : Prop :=
  ∀ p ∈ s.buried, (∀ r ∈ s.waiting, r.pid ≠ p) → (∀ t ∈ s.tasks, t.pid ≠ p) →
    ∀ x ∈ s.ledger.opened, x.owner ≠ p

/-- Clients give back only what was returned to them, and only once. -/
@[reducible] def GivesBackOwn (s : State) : Action → Prop
  | .send (.engineClose pid engine) => ⟨.engine, pid, engine⟩ ∈ s.held
  | .send (.viddec3Delete pid codec) => ⟨.codec, pid, codec⟩ ∈ s.held
  | _ => True

/-- The table is not overflowed: an engine finds a null entry in the slot of its
client, or an unused slot if there is none, and a codec finds a null entry in
the slot of its client, if there is one. -/
@[reducible] def WithinTable (s : State) : Action → Prop
  | .register .engine pid _ => RoomFor s.clients pid .engine
  | .register .codec pid _ =>
      ∀ c, getClient s.clients pid = some c → ∃ j, (s.clients c).codecs j = 0
  | _ => True

/-- The obit of a client is handled when none of its `Engine_open` and
`VIDDEC3_create` requests is waiting or on the way to its registration, and a
codec is registered while its client has a slot. -/
@[reducible] def RegistersInTime (s : State) : Action → Prop
  | .obit pid => (∀ r ∈ s.waiting, r.Opens → r.pid ≠ pid) ∧
      ∀ t ∈ s.tasks, t.Registers → t.pid ≠ pid
  | .register .codec pid _ => ∃ c, getClient s.clients pid = some c
  | _ => True

/-- The invariant: the slots record all that clients may give back, and whatever
is open is recorded, or about to be registered, or about to be released. -/
structure Accounted (s : State) : Prop where
  balanced : Balanced s.clients s.buried
  buriedDead : s.buried ⊆ s.dead
  deadNonzero : ∀ p ∈ s.dead, p ≠ 0
  sendersNonzero : ∀ r ∈ s.waiting, r.pid ≠ 0
  workersNonzero : ∀ t ∈ s.tasks, t.pid ≠ 0
  handlesNonzero : ∀ k p h, .registering k p h ∈ s.tasks → h ≠ 0
  quiet : ∀ p ∈ s.buried, (∀ r ∈ s.waiting, r.Opens → r.pid ≠ p) ∧
    ∀ k h, .registering k p h ∉ s.tasks
  backed : ∀ p ≠ 0, p ∉ s.buried → ∀ k h,
    s.held.count ⟨k, p, h⟩ + s.waiting.count (.release k p h) ≤ (recorded s.clients k p).count h
  ownersNonzero : ∀ x ∈ s.ledger.opened, x.owner ≠ 0
  covered : ∀ x ∈ s.ledger.opened, x.handle ∈ recorded s.clients x.kind x.owner ∨
    .registering x.kind x.owner x.handle ∈ s.tasks ∨
      .releasing x.kind x.owner x.handle ∈ s.tasks

namespace Accounted

variable {s s' : State} {k : Kind} {pid : Pid} {h : Handle} {r : Request}

theorem zero : Accounted zero where
  balanced := Balanced.zero
  buriedDead := Finset.empty_subset _
  deadNonzero := fun _ hp => absurd hp (Finset.notMem_empty _)
  sendersNonzero := fun _ hr => absurd hr (Multiset.notMem_zero _)
  workersNonzero := fun _ ht => absurd ht (Multiset.notMem_zero _)
  handlesNonzero := fun _ _ _ ht => absurd ht (Multiset.notMem_zero _)
  quiet := fun _ hp => absurd hp (Finset.notMem_empty _)
  backed := fun _ _ _ _ _ => by simp [State.zero]
  ownersNonzero := fun _ hx => absurd hx (Finset.notMem_empty _)
  covered := fun _ hx => absurd hx (Finset.notMem_empty _)

theorem nothingSurvives (hs : Accounted s) : s.NothingSurvives := by
  rintro p hp _ htasks x hx rfl
  rcases hs.covered x hx with hrec | hreg | hrel
  · rw [hs.balanced.recorded_gone hp] at hrec
    exact Multiset.notMem_zero _ hrec
  · exact htasks _ hreg rfl
  · exact htasks _ hrel rfl

/-- Steps that touch neither the table nor the handles of clients, open nothing,
and end only tasks that nothing open relies on. -/
theorem frame (hs : Accounted s) (hclients : s'.clients = s.clients)
    (hburied : s'.buried = s.buried) (hdead : s'.dead = s.dead) (hheld : s'.held = s.held)
    (hwaiting : s'.waiting ≤ s.waiting) (hopened : s'.ledger.opened ⊆ s.ledger.opened)
    (htasks : ∀ t ∈ s'.tasks, t ∈ s.tasks ∨ ∃ r ∈ s.waiting, t = .running r)
    (hkept : ∀ x ∈ s'.ledger.opened,
      (.registering x.kind x.owner x.handle ∈ s.tasks →
        .registering x.kind x.owner x.handle ∈ s'.tasks) ∧
      (.releasing x.kind x.owner x.handle ∈ s.tasks →
        .releasing x.kind x.owner x.handle ∈ s'.tasks)) :
    Accounted s' := by
  have hwait : ∀ r ∈ s'.waiting, r ∈ s.waiting := fun r hr => Multiset.mem_of_le hwaiting hr
  have hreg : ∀ k p h, .registering k p h ∈ s'.tasks → .registering k p h ∈ s.tasks := by
    intro k p h ht
    rcases htasks _ ht with ht | ⟨r, _, heq⟩
    · exact ht
    · exact nomatch heq
  refine ⟨?_, ?_, hdead ▸ hs.deadNonzero, fun r hr => hs.sendersNonzero r (hwait r hr), ?_,
    fun k p h ht => hs.handlesNonzero k p h (hreg k p h ht), ?_, ?_,
    fun x hx => hs.ownersNonzero x (hopened hx), ?_⟩
  · rw [hclients, hburied]
    exact hs.balanced
  · rw [hburied, hdead]
    exact hs.buriedDead
  · intro t ht
    rcases htasks t ht with ht | ⟨r, hr, rfl⟩
    · exact hs.workersNonzero t ht
    · exact hs.sendersNonzero r hr
  · rw [hburied]
    intro p hp
    obtain ⟨hwaits, htask⟩ := hs.quiet p hp
    exact ⟨fun r hr => hwaits r (hwait r hr), fun k h ht => htask k h (hreg k p h ht)⟩
  · rw [hburied, hclients, hheld]
    intro p hp hlive k h
    have hle := Multiset.count_le_of_le (Request.release k p h) hwaiting
    have := hs.backed p hp hlive k h
    omega
  · rw [hclients]
    intro x hx
    exact (hs.covered x (hopened hx)).imp_right (Or.imp (hkept x hx).1 (hkept x hx).2)

/-- Sending a request moves what it gives back from the client to the queue. -/
theorem count_send (hown : s.GivesBackOwn (.send r)) (k : Kind) (p : Pid) (h : Handle) :
    (s.heldAfterSend r).count ⟨k, p, h⟩ + (r ::ₘ s.waiting).count (.release k p h) =
      s.held.count ⟨k, p, h⟩ + s.waiting.count (.release k p h) := by
  have hgive : ∀ k' p' h', ⟨k', p', h'⟩ ∈ s.held →
      (s.held.erase ⟨k', p', h'⟩).count ⟨k, p, h⟩ +
          (Request.release k' p' h' ::ₘ s.waiting).count (.release k p h) =
        s.held.count ⟨k, p, h⟩ + s.waiting.count (.release k p h) := by
    intro k' p' h' hmem
    by_cases heq : k = k' ∧ p = p' ∧ h = h'
    · obtain ⟨rfl, rfl, rfl⟩ := heq
      have hpos := Multiset.count_pos.mpr hmem
      rw [Multiset.count_erase_self, Multiset.count_cons_self]
      omega
    · rw [Multiset.count_erase_of_ne (fun h => heq (by injection h with h₁ h₂ h₃; exact ⟨h₁, h₂, h₃⟩)),
        Multiset.count_cons_of_ne (fun h => heq (Request.release_inj.mp h))]
  have hkeep : (∀ k' p' h', r ≠ .release k' p' h') → s.heldAfterSend r = s.held →
      (s.heldAfterSend r).count ⟨k, p, h⟩ + (r ::ₘ s.waiting).count (.release k p h) =
        s.held.count ⟨k, p, h⟩ + s.waiting.count (.release k p h) := by
    intro hne heq
    rw [heq, Multiset.count_cons_of_ne (hne k p h).symm]
  cases r with
  | engineClose pid engine => exact hgive .engine pid engine hown
  | viddec3Delete pid codec => exact hgive .codec pid codec hown
  | engineOpen pid => exact hkeep (fun k' => by cases k' <;> nofun) rfl
  | viddec3Create pid engine => exact hkeep (fun k' => by cases k' <;> nofun) rfl
  | viddec3Control pid codec => exact hkeep (fun k' => by cases k' <;> nofun) rfl
  | viddec3Process pid codec => exact hkeep (fun k' => by cases k' <;> nofun) rfl

theorem send (hs : Accounted s) (hlegal : s.Legal (.send r)) (hown : s.GivesBackOwn (.send r)) :
    Accounted (s.step (.send r)) := by
  refine ⟨hs.balanced, hs.buriedDead, hs.deadNonzero, ?_, hs.workersNonzero,
    hs.handlesNonzero, ?_, ?_,
    hs.ownersNonzero, hs.covered⟩
  · exact Multiset.forall_mem_cons.mpr ⟨hlegal.1, hs.sendersNonzero⟩
  · intro p hp
    refine ⟨Multiset.forall_mem_cons.mpr ⟨fun _ heq => ?_, (hs.quiet p hp).1⟩, (hs.quiet p hp).2⟩
    exact hlegal.2 (heq ▸ hs.buriedDead hp)
  · intro p hp hlive k h
    have hbacked := hs.backed p hp hlive k h
    have hcount := count_send hown k p h
    exact hcount.le.trans hbacked

/-- Codec Engine returns a new object to a request that waited. -/
theorem grant (hs : Accounted s) (hr : r ∈ s.waiting) (hopens : r.Opens) (hh : h ≠ 0)
    (home : Finset (Handle × Handle)) :
    Accounted { s with
      waiting := s.waiting.erase r
      ledger := ⟨insert ⟨k, r.pid, h⟩ s.ledger.opened, home⟩
      tasks := .registering k r.pid h ::ₘ s.tasks } := by
  have hp := hs.sendersNonzero r hr
  refine ⟨hs.balanced, hs.buriedDead, hs.deadNonzero,
    fun r' hr' => hs.sendersNonzero r' (Multiset.mem_of_mem_erase hr'),
    Multiset.forall_mem_cons.mpr ⟨hp, hs.workersNonzero⟩, ?_, ?_, ?_,
    Finset.forall_mem_insert _ _ _ |>.mpr ⟨hp, hs.ownersNonzero⟩, ?_⟩
  · intro k' p' h' ht
    rcases Multiset.mem_cons.mp ht with heq | ht
    · injection heq with _ _ heq
      rwa [heq]
    · exact hs.handlesNonzero k' p' h' ht
  · intro p hp
    refine ⟨fun r' hr' => (hs.quiet p hp).1 r' (Multiset.mem_of_mem_erase hr'), fun k' h' ht => ?_⟩
    rcases Multiset.mem_cons.mp ht with heq | ht
    · injection heq with _ heq _
      exact (hs.quiet p hp).1 r hr hopens heq.symm
    · exact (hs.quiet p hp).2 k' h' ht
  · intro p hp hlive k' h'
    have hle := Multiset.count_le_of_le (Request.release k' p h') (Multiset.erase_le r s.waiting)
    have hbacked := hs.backed p hp hlive k' h'
    exact (Nat.add_le_add_left hle _).trans hbacked
  · intro x hx
    rcases Finset.mem_insert.mp hx with rfl | hx
    · exact Or.inr (Or.inl (Multiset.mem_cons_self _ _))
    · exact (hs.covered x hx).imp_right
        (Or.imp (Multiset.mem_cons_of_mem) (Multiset.mem_cons_of_mem))

/-- A request that Codec Engine refuses is over. -/
theorem refuse (hs : Accounted s) : Accounted { s with waiting := s.waiting.erase r } :=
  hs.frame rfl rfl rfl rfl (Multiset.erase_le _ _) subset_rfl (fun _ ht => Or.inl ht)
    fun _ _ => ⟨id, id⟩

/-- What a registration on its way does to the table. -/
theorem table_register (hs : Accounted s) (ht : .registering k pid h ∈ s.tasks)
    (hroom : RoomFor s.clients pid k) :
    Balanced (dceRegister k s.clients pid h) s.buried ∧
      ∀ q ≠ 0, ∀ k', recorded (dceRegister k s.clients pid h) k' q =
        if k' = k ∧ q = pid then h ::ₘ recorded s.clients k pid else recorded s.clients k' q :=
  hs.balanced.register (hs.workersNonzero _ ht) (fun hmem => (hs.quiet pid hmem).2 k h ht) hroom
    (hs.handlesNonzero _ _ _ ht)

/-- The client gets the handle that its slot records. -/
theorem backed_register (hs : Accounted s) (ht : .registering k pid h ∈ s.tasks)
    (hroom : RoomFor s.clients pid k) {p : Pid} (hp : p ≠ 0) (hlive : p ∉ s.buried) (k' : Kind)
    (h' : Handle) :
    (⟨k, pid, h⟩ ::ₘ s.held).count ⟨k', p, h'⟩ + s.waiting.count (.release k' p h') ≤
      (recorded (dceRegister k s.clients pid h) k' p).count h' := by
  have hbacked := hs.backed p hp hlive k' h'
  rw [(hs.table_register ht hroom).2 p hp, Multiset.count_cons]
  split
  · next heq =>
      injection heq with hk hpid hh
      subst hk hpid hh
      rw [if_pos ⟨rfl, rfl⟩, Multiset.count_cons_self]
      omega
  · split
    · next heq =>
        obtain ⟨rfl, rfl⟩ := heq
        exact hbacked.trans (Multiset.count_le_count_cons _ _ _)
    · exact hbacked

/-- The object is recorded instead of on its way to the table. -/
theorem covered_register (hs : Accounted s) (ht : .registering k pid h ∈ s.tasks)
    (hroom : RoomFor s.clients pid k) {x : Holding} (hx : x ∈ s.ledger.opened) :
    x.handle ∈ recorded (dceRegister k s.clients pid h) x.kind x.owner ∨
      .registering x.kind x.owner x.handle ∈ s.tasks.erase (.registering k pid h) ∨
        .releasing x.kind x.owner x.handle ∈ s.tasks.erase (.registering k pid h) := by
  rw [(hs.table_register ht hroom).2 _ (hs.ownersNonzero x hx)]
  rcases hs.covered x hx with hrec | hreg | hrel
  · left
    split
    · next heq => exact Multiset.mem_cons_of_mem (heq.1 ▸ heq.2 ▸ hrec)
    · exact hrec
  · by_cases heq : Task.registering x.kind x.owner x.handle = .registering k pid h
    · injection heq with hk hpid hh
      left
      rw [if_pos ⟨hk, hpid⟩, hh]
      exact Multiset.mem_cons_self _ _
    · exact Or.inr (Or.inl ((Multiset.mem_erase_of_ne heq).mpr hreg))
  · exact Or.inr (Or.inr ((Multiset.mem_erase_of_ne (by simp)).mpr hrel))

/-- The object is registered and the client gets it. -/
theorem register (hs : Accounted s) (ht : .registering k pid h ∈ s.tasks)
    (hroom : RoomFor s.clients pid k) : Accounted (s.step (.register k pid h)) := by
  have herase : ∀ t, t ∈ s.tasks.erase (.registering k pid h) → t ∈ s.tasks :=
    fun t => Multiset.mem_of_mem_erase
  refine ⟨(hs.table_register ht hroom).1, hs.buriedDead, hs.deadNonzero, hs.sendersNonzero, ?_, ?_,
    ?_, ?_, hs.ownersNonzero, ?_⟩
  · exact fun t ht => hs.workersNonzero t (herase t ht)
  · exact fun k' p' h' ht => hs.handlesNonzero k' p' h' (herase _ ht)
  · exact fun p hp => ⟨(hs.quiet p hp).1, fun k' h' ht => (hs.quiet p hp).2 k' h' (herase _ ht)⟩
  · exact fun p hp hlive => hs.backed_register ht hroom hp hlive
  · exact fun x hx => hs.covered_register ht hroom hx

/-- What an unregistration that was sent does to the table. -/
theorem table_unregister (hs : Accounted s) (hp : pid ≠ 0) (hr : .release k pid h ∈ s.waiting) :
    Balanced (dceUnregister k s.clients pid h) s.buried ∧
      ∀ q ≠ 0, ∀ k', recorded (dceUnregister k s.clients pid h) k' q =
        if q ∉ s.buried ∧ k' = k ∧ q = pid then (recorded s.clients k pid).erase h
        else recorded s.clients k' q := by
  by_cases hgone : pid ∈ s.buried
  · obtain ⟨hbalanced, hrecorded⟩ := hs.balanced.unregister_gone hp hgone k h
    refine ⟨hbalanced, fun q hq k' => ?_⟩
    rw [hrecorded q hq, if_neg fun heq => heq.1 (heq.2.2 ▸ hgone)]
  · have hbacked := hs.backed pid hp hgone k h
    have hpos := Multiset.count_pos.mpr hr
    obtain ⟨hbalanced, hrecorded⟩ := hs.balanced.unregister hp hgone
      (Multiset.count_pos.mp (by omega : 0 < (recorded s.clients k pid).count h))
    refine ⟨hbalanced, fun q hq k' => ?_⟩
    rw [hrecorded q hq]
    by_cases heq : k' = k ∧ q = pid
    · rw [if_pos heq, if_pos ⟨heq.2 ▸ hgone, heq⟩]
    · rw [if_neg heq, if_neg fun h => heq h.2]

/-- The slot forgets one handle for the request that gives it back. -/
theorem backed_unregister (hs : Accounted s) (hp : pid ≠ 0) (hr : .release k pid h ∈ s.waiting)
    {p : Pid} (hp0 : p ≠ 0) (hlive : p ∉ s.buried) (k' : Kind) (h' : Handle) :
    s.held.count ⟨k', p, h'⟩ + (s.waiting.erase (.release k pid h)).count (.release k' p h') ≤
      (recorded (dceUnregister k s.clients pid h) k' p).count h' := by
  have hbacked := hs.backed p hp0 hlive k' h'
  rw [(hs.table_unregister hp hr).2 p hp0]
  by_cases heq : k' = k ∧ p = pid
  · obtain ⟨rfl, rfl⟩ := heq
    rw [if_pos ⟨hlive, rfl, rfl⟩]
    by_cases hh : h' = h
    · subst hh
      rw [Multiset.count_erase_self, Multiset.count_erase_self]
      have hpos := Multiset.count_pos.mpr hr
      omega
    · rw [Multiset.count_erase_of_ne hh,
        Multiset.count_erase_of_ne fun h => hh (Request.release_inj.mp h).2.2]
      exact hbacked
  · rw [if_neg fun h => heq h.2,
      Multiset.count_erase_of_ne fun h => heq ⟨(Request.release_inj.mp h).1,
        (Request.release_inj.mp h).2.1⟩]
    exact hbacked

/-- The object is on its way to its release instead of recorded. -/
theorem covered_unregister (hs : Accounted s) (hp : pid ≠ 0) (hr : .release k pid h ∈ s.waiting)
    {x : Holding} (hx : x ∈ s.ledger.opened) :
    x.handle ∈ recorded (dceUnregister k s.clients pid h) x.kind x.owner ∨
      .registering x.kind x.owner x.handle ∈ .releasing k pid h ::ₘ s.tasks ∨
        .releasing x.kind x.owner x.handle ∈ .releasing k pid h ::ₘ s.tasks := by
  rw [(hs.table_unregister hp hr).2 _ (hs.ownersNonzero x hx)]
  rcases hs.covered x hx with hrec | hreg | hrel
  · by_cases heq : x.kind = k ∧ x.owner = pid ∧ x.handle = h
    · obtain ⟨rfl, rfl, rfl⟩ := heq
      exact Or.inr (Or.inr (Multiset.mem_cons_self _ _))
    · left
      split
      · next hif =>
          have hne : x.handle ≠ h := fun hh => heq ⟨hif.2.1, hif.2.2, hh⟩
          rw [← hif.2.1, ← hif.2.2]
          exact (Multiset.mem_erase_of_ne hne).mpr hrec
      · exact hrec
  · exact Or.inr (Or.inl (Multiset.mem_cons_of_mem hreg))
  · exact Or.inr (Or.inr (Multiset.mem_cons_of_mem hrel))

/-- The table forgets the object that is going to be released. -/
theorem unregister (hs : Accounted s) (hr : .release k pid h ∈ s.waiting) :
    Accounted (s.step (.unregister k pid h)) := by
  have hp : pid ≠ 0 := by
    have := hs.sendersNonzero _ hr
    rwa [Request.release_pid] at this
  have herase : ∀ r', r' ∈ s.waiting.erase (.release k pid h) → r' ∈ s.waiting :=
    fun r' => Multiset.mem_of_mem_erase
  have hold : ∀ k' p' h', .registering k' p' h' ∈ .releasing k pid h ::ₘ s.tasks →
      .registering k' p' h' ∈ s.tasks := by
    intro k' p' h' ht
    exact (Multiset.mem_cons.mp ht).resolve_left fun heq => nomatch heq
  refine ⟨(hs.table_unregister hp hr).1, hs.buriedDead, hs.deadNonzero, ?_,
    Multiset.forall_mem_cons.mpr ⟨hp, hs.workersNonzero⟩, ?_, ?_, ?_, hs.ownersNonzero, ?_⟩
  · exact fun r' hr' => hs.sendersNonzero r' (herase r' hr')
  · exact fun k' p' h' ht => hs.handlesNonzero k' p' h' (hold k' p' h' ht)
  · intro p hp
    obtain ⟨hwaits, htask⟩ := hs.quiet p hp
    exact ⟨fun r' hr' => hwaits r' (herase r' hr'), fun k' h' ht => htask k' h' (hold k' p h' ht)⟩
  · exact fun p hp0 hlive => hs.backed_unregister hp hr hp0 hlive
  · exact fun x hx => hs.covered_unregister hp hr hx

/-- Codec Engine releases the object. -/
theorem release (hs : Accounted s) : Accounted (s.step (.release k pid h)) := by
  refine hs.frame rfl rfl rfl rfl le_rfl (Finset.filter_subset _ _)
    (fun t ht => Or.inl (Multiset.mem_of_mem_erase ht)) fun x hx => ⟨fun ht => ?_, fun ht => ?_⟩
  · exact (Multiset.mem_erase_of_ne (by simp)).mpr ht
  · refine (Multiset.mem_erase_of_ne fun heq => ?_).mpr ht
    injection heq with hk _ hh
    exact (Ledger.mem_release.mp hx).2 ⟨hk, hh⟩

theorem begin (hs : Accounted s) (hr : r ∈ s.waiting) : Accounted (s.step (.begin r)) := by
  refine hs.frame rfl rfl rfl rfl (Multiset.erase_le _ _) subset_rfl (fun t ht => ?_)
    fun x _ => ⟨Multiset.mem_cons_of_mem, Multiset.mem_cons_of_mem⟩
  rcases Multiset.mem_cons.mp ht with rfl | ht
  · exact Or.inr ⟨r, hr, rfl⟩
  · exact Or.inl ht

theorem finish (hs : Accounted s) : Accounted (s.step (.finish r)) :=
  hs.frame rfl rfl rfl rfl le_rfl subset_rfl
    (fun _ ht => Or.inl (Multiset.mem_of_mem_erase ht))
    fun _ _ => ⟨fun ht => (Multiset.mem_erase_of_ne (by simp)).mpr ht,
      fun ht => (Multiset.mem_erase_of_ne (by simp)).mpr ht⟩

/-- The cleanup releases all that the slot of the dead client records. -/
theorem obit (hs : Accounted s) (hlegal : s.Legal (.obit pid))
    (htime : s.RegistersInTime (.obit pid)) : Accounted (s.step (.obit pid)) := by
  have hp : pid ≠ 0 := hs.deadNonzero pid hlegal.1
  obtain ⟨hbalanced, hrecorded⟩ := hs.balanced.obit hp hlegal.2
  have hcalls : (dceCleanupCb ⟨s.clients, []⟩ .procObit pid).calls = obitCalls s.clients pid :=
    dceCleanupCb_calls hp hs.balanced.unique
  have hopened : ∀ x, x ∈ (s.step (.obit pid)).ledger.opened →
      x ∈ s.ledger.opened ∧ ⟨x.kind, x.handle⟩ ∉ obitCalls s.clients pid := by
    intro x hx
    rw [← hcalls]
    exact Ledger.mem_releaseAll.mp hx
  refine ⟨hbalanced, Finset.insert_subset hlegal.1 hs.buriedDead, hs.deadNonzero,
    hs.sendersNonzero, hs.workersNonzero, hs.handlesNonzero, ?_, ?_,
    fun x hx => hs.ownersNonzero x (hopened x hx).1, ?_⟩
  · exact Finset.forall_mem_insert _ _ _ |>.mpr
      ⟨⟨htime.1, fun k h ht => htime.2 _ ht trivial rfl⟩, hs.quiet⟩
  · intro p hp0 hlive k h
    have hne : p ≠ pid := fun heq => hlive (heq ▸ Finset.mem_insert_self _ _)
    show _ ≤ (recorded (dceCleanupCb ⟨s.clients, []⟩ .procObit pid).clients k p).count h
    rw [hrecorded p hp0, if_neg hne]
    exact hs.backed p hp0 (fun hmem => hlive (Finset.mem_insert_of_mem hmem)) k h
  · intro x hx
    obtain ⟨hx, hkept⟩ := hopened x hx
    show x.handle ∈ recorded (dceCleanupCb ⟨s.clients, []⟩ .procObit pid).clients x.kind x.owner ∨ _
    rw [hrecorded _ (hs.ownersNonzero x hx)]
    refine (hs.covered x hx).imp_left fun hrec => ?_
    split
    · next howner => exact absurd (mem_obitCalls.mpr (howner ▸ hrec)) hkept
    · exact hrec

/-- Every step that is in time keeps the accounts. -/
theorem step {a : Action} (hs : Accounted s) (hlegal : s.Legal a) (hown : s.GivesBackOwn a)
    (htable : s.WithinTable a) (htime : s.RegistersInTime a) : Accounted (s.step a) := by
  cases a with
  | send r => exact hs.send hlegal hown
  | die pid =>
      exact { hs with
        buriedDead := hs.buriedDead.trans (Finset.subset_insert _ _)
        deadNonzero := Finset.forall_mem_insert _ _ _ |>.mpr ⟨hlegal, hs.deadNonzero⟩ }
  | engineOpen pid engine =>
      by_cases h : engine = 0
      · simp only [State.step, granted, Ledger.grant, h, if_true]
        exact hs.refuse
      · simp only [State.step, granted, Ledger.grant, h, if_false]
        exact hs.grant hlegal.1 trivial h _
  | viddec3Create pid engine codec =>
      by_cases h : codec = 0
      · simp only [State.step, granted, Ledger.grant, h, if_true]
        exact hs.refuse
      · simp only [State.step, granted, Ledger.grant, h, if_false]
        exact hs.grant hlegal.1 trivial h _
  | register k pid h =>
      apply hs.register hlegal
      cases k with
      | engine => exact htable
      | codec =>
          obtain ⟨c, hc⟩ := htime
          exact ⟨c, hc, htable c hc⟩
  | unregister k pid h => exact hs.unregister hlegal
  | release k pid h => exact hs.release
  | begin r => exact hs.begin hlegal.1
  | finish r => exact hs.finish
  | obit pid => exact hs.obit hlegal htime

end Accounted

/-- In every run within the table in which clients give back their own, and
obits and registrations are in time, nothing of a dead client survives its last
request. -/
theorem nothingSurvives_of_registersInTime {actions : List Action}
    (run : Run step (fun s a => s.Legal a ∧ s.WithinTable a) zero actions)
    (htime : Run step (fun s a => s.GivesBackOwn a ∧ s.RegistersInTime a) zero actions) :
    ∀ pre, pre <+: actions → (final step zero pre).NothingSurvives := by
  intro pre hpre
  have hboth := ((run_and _ _).mpr ⟨run, htime⟩).shorten hpre
  exact (hboth.invariant (I := Accounted) Accounted.zero
    fun s a hs h => hs.step h.1.1 h.2.1 h.1.2 h.2.2).nothingSurvives

section Runs

instance (s : State) : Decidable s.NothingSurvives := decidableForallFinset ..

instance (s : State) : DecidablePred s.GivesBackOwn :=
  have : DecidablePred fun r => s.GivesBackOwn (.send r) := Request.decidable
  Action.decidable

instance (t : Clients) (p : Pid) : DecidablePred (RoomFor t p) := Kind.decidable

instance (s : State) : DecidablePred s.WithinTable :=
  have (pid : Pid) (h : Handle) : DecidablePred fun k => s.WithinTable (.register k pid h) :=
    Kind.decidable
  Action.decidable

instance (s : State) : DecidablePred s.RegistersInTime :=
  have (pid : Pid) (h : Handle) : DecidablePred fun k => s.RegistersInTime (.register k pid h) :=
    Kind.decidable
  Action.decidable

/-- The obit is handled between `Engine_open` and the registration. -/
def obitBeforeRegistration : List Action :=
  [.send (.engineOpen 7), .engineOpen 7 100, .die 7, .obit 7, .register .engine 7 100]

/-- The obit is handled while the request still waits. -/
def obitBeforeRequest : List Action :=
  [.send (.engineOpen 7), .die 7, .obit 7, .engineOpen 7 100, .register .engine 7 100]

/-- The slot is given up between `VIDDEC3_create` and the registration. -/
def codecWithoutSlot : List Action :=
  [.send (.engineOpen 7), .engineOpen 7 100, .register .engine 7 100,
    .send (.viddec3Create 7 100), .viddec3Create 7 100 200,
    .send (.engineClose 7 100), .unregister .engine 7 100, .release .engine 7 100,
    .register .codec 7 200, .die 7, .obit 7]

/-- Each of these orders leaves an engine or a codec open for good. -/
theorem obit_out_of_time :
    (Run step (fun s a => s.Legal a ∧ s.WithinTable a) zero obitBeforeRegistration ∧
      ¬(final step zero obitBeforeRegistration).NothingSurvives) ∧
    (Run step (fun s a => s.Legal a ∧ s.WithinTable a) zero obitBeforeRequest ∧
      ¬(final step zero obitBeforeRequest).NothingSurvives) ∧
    Run step (fun s a => s.Legal a ∧ s.WithinTable a) zero codecWithoutSlot ∧
      ¬(final step zero codecWithoutSlot).NothingSurvives := by
  decide +kernel

/-- Two clients with requests in flight; the first dies while its engine is
being closed and a codec of it is decoding. -/
def twoClients : List Action :=
  [.send (.engineOpen 7), .send (.engineOpen 9), .engineOpen 7 100, .engineOpen 9 101,
    .register .engine 9 101, .register .engine 7 100, .send (.viddec3Create 7 100),
    .viddec3Create 7 100 200, .register .codec 7 200, .send (.viddec3Process 7 200),
    .begin (.viddec3Process 7 200), .send (.engineClose 7 100), .unregister .engine 7 100,
    .die 7, .obit 7, .release .engine 7 100, .finish (.viddec3Process 7 200)]

theorem nothingSurvives_of_registersInTime_two :
    Run step (fun s a => s.Legal a ∧ s.WithinTable a) zero twoClients ∧
      ∀ pre, pre <+: twoClients → (final step zero pre).NothingSurvives := by
  have run : Run step (fun s a => s.Legal a ∧ s.WithinTable a) zero twoClients := by
    decide +kernel
  have htime : Run step (fun s a => s.GivesBackOwn a ∧ s.RegistersInTime a) zero twoClients := by
    decide +kernel
  exact ⟨run, nothingSurvives_of_registersInTime run htime⟩

end Runs

end State

end Libdce.Concurrency
