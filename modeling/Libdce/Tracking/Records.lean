import Libdce.Tracking.Isolation

/-!
# What the table records for one client

A handler finds the slot of its client by pid, so that for a client it matters
neither which slot that is nor what the others hold. What the table records for
a client, and what is released on its behalf, follow from its own events alone,
as long as its first engine finds an unused slot and no slot is given up with
handles left in it.

## Implementation notes

An event is described by what it does to the contents of its client's slot. The
cleanup goes on in a slot that it has given up, which the handlers that it calls
do not find any more; a slot that is given up has pid zero.
-/

namespace Libdce.Tracking

open Foundation.SlotArray Foundation.GuardedRuns

/-- What the table records for a client. -/
def record (t : Clients) (p : Pid) : Option Client := (getClient t p).map t

namespace Client

/-- There are no handles left, but for `engines[0]`, which the next client overwrites. -/
def Blank (c : Client) : Prop :=
  (∀ j, c.codecs j = 0) ∧ ∀ j, j = 0 ∨ c.engines j = 0

instance (c : Client) : Decidable c.Blank := inferInstanceAs (Decidable (_ ∧ _))

/-- What a slot records: nothing once it is given up. -/
def kept (c : Client) : Option Client := if c.pid = 0 then none else some c

/-- The slot of a client that has opened its first engine. -/
def first (p : Pid) (engine : Handle) : Client := ⟨p, 1, Function.update 0 0 engine, 0⟩

/-- A round of a cleanup loop, as far as its own slot goes: the entry is taken out
if the slot is still found, and released in any case. -/
def round (k : Kind) (x : Client × List CeCall) (i : Fin 10) : Client × List CeCall :=
  if x.1.cells k i ≠ 0 then
    (if x.1.pid = 0 then x.1 else (x.1.drop k (x.1.cells k i)).settle k,
      x.2 ++ [⟨k, x.1.cells k i⟩])
  else x

/-- The two loops of the cleanup. -/
def cleanup (c : Client) : Client × List CeCall := sweep (round .engine) (sweep (round .codec) (c, []))

end Client

namespace Event

/-- What an event leaves in the slot of its client, and what it releases. -/
def apply : Event → Client → Client × List CeCall
  | .engineOpen _ engine, c => (if engine = 0 then c else c.store .engine engine, [])
  | .engineClose _ engine, c => ((c.drop .engine engine).settle .engine, [⟨.engine, engine⟩])
  | .viddec3Create _ _ codec, c => (if codec = 0 then c else c.store .codec codec, [])
  | .viddec3Control _ _, c => (c, [])
  | .viddec3Process _ _, c => (c, [])
  | .viddec3Delete _ codec, c => ((c.drop .codec codec).settle .codec, [⟨.codec, codec⟩])
  | .obit _, c => c.cleanup

/-- The same for a client without a slot. -/
def applyNone : Event → Option Client × List CeCall
  | .engineOpen pid engine => (if engine = 0 then none else some (.first pid engine), [])
  | .engineClose _ engine => (none, [⟨.engine, engine⟩])
  | .viddec3Delete _ codec => (none, [⟨.codec, codec⟩])
  | _ => (none, [])

/-- What an event leaves of a record, which may be a slot that is given up, and what
it releases. -/
def outcome (ev : Event) : Option Client → Option Client × List CeCall
  | some c => (some (ev.apply c).1, (ev.apply c).2)
  | none => ev.applyNone

end Event

/-- A client that opens its first engine finds an unused slot. -/
@[reducible] def FindsSlot (t : Clients) : Event → Prop
  | .engineOpen pid engine => engine ≠ 0 → getClient t pid = none → ∃ c, getClient t 0 = some c
  | _ => True

/-- If the event makes its client give up the slot, the slot is blank. -/
def GivesUpBlank (t : Clients) (ev : Event) : Prop :=
  ∀ c, getClient t ev.pid = some c → ((Server.serve ⟨t, []⟩ ev).clients c).pid = 0 →
    ((Server.serve ⟨t, []⟩ ev).clients c).Blank

instance (t : Clients) : DecidablePred (FindsSlot t) := Event.decidable

instance (t : Clients) (ev : Event) : Decidable (GivesUpBlank t ev) :=
  inferInstanceAs (Decidable (∀ c, getClient t ev.pid = some c →
    ((Server.serve ⟨t, []⟩ ev).clients c).pid = 0 → ((Server.serve ⟨t, []⟩ ev).clients c).Blank))

section Slots

variable {t t' : Clients} {p q : Pid} {i : Fin 10} {c : Client}

theorem record_of_getClient (h : getClient t p = some i) : record t p = some (t i) := by
  rw [record, h, Option.map_some]

theorem record_eq_none_iff : record t p = none ↔ getClient t p = none := Option.map_eq_none_iff

/-- An event of another client does not show. -/
theorem record_of_onlyTouches (h : OnlyTouches q t t') (hp : p ≠ 0) (hpq : p ≠ q) :
    record t' p = record t p := by
  have hsame : ∀ i, (t i).pid = p → t' i = t i := fun i hi =>
    h.other (hi ▸ hp) (hi ▸ hpq)
  have hcarries : ∀ i, (t' i).pid = p ↔ (t i).pid = p := by
    intro i
    constructor
    · intro hi
      rcases h i with heq | ⟨-, hpid | hpid⟩
      · rwa [heq] at hi
      · exact absurd (hi.symm.trans hpid) hpq
      · exact absurd (hi.symm.trans hpid) hp
    · intro hi
      rwa [hsame i hi]
  rw [record, record, getClient_congr hcarries]
  cases hi : getClient t p with
  | none => rfl
  | some i => simp only [Option.map_some, hsame i (pid_of_getClient hi)]

/-- What is recorded after the client's slot has changed. -/
theorem record_update (hu : UniquePids t) (hp : p ≠ 0) (hi : getClient t p = some i)
    (hc : c.pid = p ∨ c.pid = 0) :
    record (Function.update t i c) p = c.kept := by
  rcases hc with hpid | hpid
  · have hne : c.pid ≠ 0 := hpid ▸ hp
    rw [record_of_getClient (getClient_update_self hi hpid), Function.update_self, Client.kept,
      if_neg hne]
  · have hnone : getClient (Function.update t i c) p = none :=
      hu.getClient_update_release hp hi (hpid ▸ hp.symm)
    rw [record_eq_none_iff.mpr hnone, Client.kept, if_pos hpid]

theorem record_update_fresh (hi : getClient t p = none) (hc : c.pid = p) :
    record (Function.update t i c) p = some c := by
  rw [record_of_getClient (getClient_update_fresh hi hc), Function.update_self]

/-- Taking over a blank slot. -/
theorem Client.Blank.occupy (hc : c.Blank) (p : Pid) (engine : Handle) :
    c.occupy p engine = .first p engine := by
  refine Client.ext_cells rfl rfl fun k => ?_
  cases k with
  | engine =>
      funext j
      by_cases hj : j = 0
      · subst j
        rfl
      · show Function.update c.engines 0 engine j = Function.update (0 : Fin 10 → Handle) 0 engine j
        rw [Function.update_of_ne hj, Function.update_of_ne hj]
        exact (hc.2 j).resolve_left hj
  | codec =>
      funext j
      exact hc.1 j

end Slots

section Serve

variable {t : Clients} {p : Pid} {c : Fin 10}

theorem Client.round_pid {k : Kind} {x : Client × List CeCall} (i : Fin 10)
    (hx : x.1.pid = p ∨ x.1.pid = 0) :
    (Client.round k x i).1.pid = p ∨ (Client.round k x i).1.pid = 0 := by
  rw [round]
  split
  · dsimp only
    split
    · exact hx
    · rcases ((x.1.drop k (x.1.cells k i)).settle_pid_or k) with hpid | hpid
      · rwa [hpid, drop_pid]
      · exact Or.inr hpid
  · exact hx

/-- A round of a cleanup loop works on its own slot. -/
theorem cleanupRound_update (hu : UniquePids t) (hp : p ≠ 0) (hc : getClient t p = some c)
    (k : Kind) {x : Client × List CeCall} (hx : x.1.pid = p ∨ x.1.pid = 0) (calls : List CeCall)
    (i : Fin 10) :
    cleanupRound k p c ⟨Function.update t c x.1, calls ++ x.2⟩ i =
      ⟨Function.update t c (Client.round k x i).1, calls ++ (Client.round k x i).2⟩ := by
  simp only [cleanupRound, Client.round, Function.update_self]
  split
  · next hcell =>
      rcases hx with hpid | hpid
      · have hne : x.1.pid ≠ 0 := hpid ▸ hp
        have hfound : getClient (Function.update t c x.1) p = some c :=
          getClient_update_self hc hpid
        simp only [rpcRelease, dceUnregister_found k _ hfound, Function.update_self,
          Function.update_idem, if_neg hne, List.append_assoc]
      · have hnone : getClient (Function.update t c x.1) p = none :=
          hu.getClient_update_release hp hc (hpid ▸ hp.symm)
        simp only [rpcRelease, dceUnregister_absent k _ hnone, if_pos hpid, List.append_assoc]
  · rfl

theorem Client.sweep_round_pid {k : Kind} {x : Client × List CeCall}
    (hx : x.1.pid = p ∨ x.1.pid = 0) :
    (sweep (Client.round k) x).1.pid = p ∨ (sweep (Client.round k) x).1.pid = 0 := by
  apply sweep_invariant (n := 10) (f := Client.round k)
    (I := fun (_ : ℕ) (x : Client × List CeCall) => x.1.pid = p ∨ x.1.pid = 0) hx
  exact fun i _ => Client.round_pid i

/-- A whole loop works on its own slot. -/
theorem sweep_cleanupRound (hu : UniquePids t) (hp : p ≠ 0) (hc : getClient t p = some c)
    (k : Kind) {x : Client × List CeCall} (hx : x.1.pid = p ∨ x.1.pid = 0) (calls : List CeCall) :
    sweep (cleanupRound k p c) ⟨Function.update t c x.1, calls ++ x.2⟩ =
      ⟨Function.update t c (sweep (Client.round k) x).1, calls ++ (sweep (Client.round k) x).2⟩ := by
  unfold sweep
  generalize List.finRange 10 = is
  induction is generalizing x with
  | nil => rfl
  | cons i is ih =>
      rw [List.foldl_cons, List.foldl_cons, cleanupRound_update hu hp hc k hx]
      exact ih (Client.round_pid i hx)

/-- An event of a client that has a slot works on that slot. -/
theorem serve_found (hu : UniquePids t) {ev : Event} (hp : ev.pid ≠ 0)
    (hc : getClient t ev.pid = some c) (calls : List CeCall) :
    Server.serve ⟨t, calls⟩ ev =
      ⟨Function.update t c (ev.apply (t c)).1, calls ++ (ev.apply (t c)).2⟩ := by
  cases ev with
  | engineOpen pid engine =>
      have hc : getClient t pid = some c := hc
      by_cases he : engine = 0
      · simp only [Server.serve, rpcEngineOpen, Event.apply, he, ne_eq, not_true_eq_false, if_true,
          if_false, Function.update_eq_self, List.append_nil]
      · simp only [Server.serve, rpcEngineOpen, dceRegisterEngine, Event.apply, he, hc, ne_eq,
          not_false_eq_true, if_true, if_false, List.append_nil]
  | engineClose pid engine =>
      have hc : getClient t pid = some c := hc
      simp only [Server.serve, rpcEngineClose, rpcRelease, dceUnregister_found .engine engine hc]
      rfl
  | viddec3Create pid engine codec =>
      have hc : getClient t pid = some c := hc
      by_cases hh : codec = 0
      · simp only [Server.serve, rpcViddec3Create, Event.apply, hh, ne_eq, not_true_eq_false, if_true,
          if_false, Function.update_eq_self, List.append_nil]
      · simp only [Server.serve, rpcViddec3Create, dceRegisterCodec, Event.apply, hh, hc, ne_eq,
          not_false_eq_true, if_true, if_false, List.append_nil]
  | viddec3Control pid codec => simp [Server.serve, Event.apply]
  | viddec3Process pid codec => simp [Server.serve, Event.apply]
  | viddec3Delete pid codec =>
      have hc : getClient t pid = some c := hc
      simp only [Server.serve, rpcViddec3Delete, rpcRelease, dceUnregister_found .codec codec hc]
      rfl
  | obit pid =>
      have hc : getClient t pid = some c := hc
      have hp : pid ≠ 0 := hp
      have hpid : (t c).pid = pid ∨ (t c).pid = 0 := Or.inl (pid_of_getClient hc)
      have hcodecs : sweep (cleanupRound .codec pid c) ⟨t, calls⟩ =
          ⟨Function.update t c (sweep (Client.round .codec) (t c, [])).1,
            calls ++ (sweep (Client.round .codec) (t c, [])).2⟩ := by
        rw [← sweep_cleanupRound hu hp hc .codec hpid calls, Function.update_eq_self,
          List.append_nil]
      calc
        Server.serve ⟨t, calls⟩ (.obit pid) =
            sweep (cleanupRound .engine pid c) (sweep (cleanupRound .codec pid c) ⟨t, calls⟩) := by
          simp only [Server.serve, dceCleanupCb, hc]
        _ = ⟨Function.update t c (t c).cleanup.1, calls ++ (t c).cleanup.2⟩ := by
          rw [hcodecs]
          exact sweep_cleanupRound hu hp hc .engine (Client.sweep_round_pid hpid) calls

/-- A client without a slot, unless it opens its first engine, does not get one. -/
theorem serve_absent {ev : Event} (hc : getClient t ev.pid = none)
    (hopens : ∀ engine, ev = .engineOpen ev.pid engine → engine = 0) (calls : List CeCall) :
    Server.serve ⟨t, calls⟩ ev = ⟨t, calls ++ ev.applyNone.2⟩ := by
  cases ev with
  | engineOpen pid engine =>
      have he : engine = 0 := hopens engine rfl
      simp only [Server.serve, rpcEngineOpen, Event.applyNone, he, ne_eq, not_true_eq_false, if_false,
        List.append_nil]
  | engineClose pid engine =>
      have hc : getClient t pid = none := hc
      simp only [Server.serve, rpcEngineClose, rpcRelease, dceUnregister_absent .engine engine hc]
      rfl
  | viddec3Create pid engine codec =>
      have hc : getClient t pid = none := hc
      simp [Server.serve, rpcViddec3Create, dceRegisterCodec, Event.applyNone, hc]
  | viddec3Control pid codec => simp [Server.serve, Event.applyNone]
  | viddec3Process pid codec => simp [Server.serve, Event.applyNone]
  | viddec3Delete pid codec =>
      have hc : getClient t pid = none := hc
      simp only [Server.serve, rpcViddec3Delete, rpcRelease, dceUnregister_absent .codec codec hc]
      rfl
  | obit pid =>
      have hc : getClient t pid = none := hc
      simp [Server.serve, dceCleanupCb, Event.applyNone, hc]

/-- A client that opens its first engine takes over an unused slot. -/
theorem serve_first {pid : Pid} {engine : Handle} (he : engine ≠ 0) (hc : getClient t pid = none)
    (hfree : getClient t 0 = some c) (calls : List CeCall) :
    Server.serve ⟨t, calls⟩ (.engineOpen pid engine) =
      ⟨Function.update t c ((t c).occupy pid engine), calls⟩ := by
  simp only [Server.serve, rpcEngineOpen, dceRegisterEngine, he, hc, hfree, ne_eq, not_false_eq_true,
    if_true]

theorem Event.apply_pid (ev : Event) {x : Client} (hx : x.pid = p ∨ x.pid = 0) :
    (ev.apply x).1.pid = p ∨ (ev.apply x).1.pid = 0 := by
  have hdropped : ∀ k h, ((x.drop k h).settle k).pid = p ∨ ((x.drop k h).settle k).pid = 0 := by
    intro k h
    rcases (x.drop k h).settle_pid_or k with hpid | hpid
    · rwa [hpid, Client.drop_pid]
    · exact Or.inr hpid
  cases ev with
  | engineOpen pid engine =>
      simp only [apply]
      split
      · exact hx
      · rwa [Client.store_pid]
  | engineClose pid engine => exact hdropped .engine engine
  | viddec3Create pid engine codec =>
      simp only [apply]
      split
      · exact hx
      · rwa [Client.store_pid]
  | viddec3Control pid codec => exact hx
  | viddec3Process pid codec => exact hx
  | viddec3Delete pid codec => exact hdropped .codec codec
  | obit pid =>
      have hcodecs := Client.sweep_round_pid (k := .codec) (x := (x, [])) hx
      simp only [apply, Client.cleanup]
      exact Client.sweep_round_pid hcodecs

/-- Unused slots are blank. -/
def UnusedBlank (t : Clients) : Prop := ∀ i, (t i).pid = 0 → (t i).Blank

/-- The three ways of an event: it works on the slot of its client, takes over an
unused slot, or finds none and leaves the table alone. -/
theorem serve_cases (hu : UniquePids t) (hblank : UnusedBlank t) {ev : Event} (hp : ev.pid ≠ 0)
    (hfinds : FindsSlot t ev) (calls : List CeCall) :
    (∃ c, getClient t ev.pid = some c ∧ Server.serve ⟨t, calls⟩ ev =
      ⟨Function.update t c (ev.apply (t c)).1, calls ++ (ev.apply (t c)).2⟩) ∨
    (∃ c x, getClient t ev.pid = none ∧ (t c).pid = 0 ∧ x.pid = ev.pid ∧
      ev.applyNone = (some x, []) ∧
      Server.serve ⟨t, calls⟩ ev = ⟨Function.update t c x, calls⟩) ∨
    (getClient t ev.pid = none ∧ ev.applyNone.1 = none ∧
      Server.serve ⟨t, calls⟩ ev = ⟨t, calls ++ ev.applyNone.2⟩) := by
  cases hc : getClient t ev.pid with
  | some c => exact Or.inl ⟨c, rfl, serve_found hu hp hc calls⟩
  | none =>
      by_cases hopens : ∀ engine, ev = .engineOpen ev.pid engine → engine = 0
      · refine Or.inr (Or.inr ⟨rfl, ?_, serve_absent hc hopens calls⟩)
        cases ev with
        | engineOpen pid engine => simp only [Event.applyNone, if_pos (hopens engine rfl)]
        | _ => rfl
      · push Not at hopens
        obtain ⟨engine, heq, he⟩ := hopens
        generalize ev.pid = pid at heq hc hp
        subst ev
        obtain ⟨c, hfree⟩ := hfinds he hc
        have hunused := pid_of_getClient hfree
        refine Or.inr (Or.inl ⟨c, .first pid engine, rfl, hunused, rfl, ?_, ?_⟩)
        · simp only [Event.applyNone, if_neg he]
        · rw [serve_first he hc hfree, (hblank c hunused).occupy]

/-- What is recorded for the client of an event, and what is released, follow from
what was recorded. -/
theorem record_serve (hu : UniquePids t) (hblank : UnusedBlank t) {ev : Event} (hp : ev.pid ≠ 0)
    (hfinds : FindsSlot t ev) (calls : List CeCall) :
    record (Server.serve ⟨t, calls⟩ ev).clients ev.pid =
        (ev.outcome (record t ev.pid)).1.bind Client.kept ∧
      (Server.serve ⟨t, calls⟩ ev).calls = calls ++ (ev.outcome (record t ev.pid)).2 := by
  rcases serve_cases hu hblank hp hfinds calls with ⟨c, hc, hserve⟩ |
    ⟨c, x, hc, hunused, hx, hnone, hserve⟩ | ⟨hc, hnone, hserve⟩
  · have hpid := ev.apply_pid (Or.inl (pid_of_getClient hc))
    rw [hserve, record_update hu hp hc hpid, record_of_getClient hc]
    exact ⟨rfl, rfl⟩
  · rw [hserve, record_update_fresh hc hx, record_eq_none_iff.mpr hc]
    have hkept : x.kept = some x := if_neg (hx ▸ hp)
    simp only [Event.outcome, hnone, Option.bind_some, hkept, List.append_nil, and_self]
  · rw [hserve, record_eq_none_iff.mpr hc]
    simp only [Event.outcome, hnone, Option.bind_none, and_self]

theorem unusedBlank_serve (hu : UniquePids t) (hblank : UnusedBlank t) {ev : Event}
    (hp : ev.pid ≠ 0) (hfinds : FindsSlot t ev) (hgives : GivesUpBlank t ev) :
    UnusedBlank (Server.serve ⟨t, []⟩ ev).clients := by
  have hupdate : ∀ {c x}, (x.pid = 0 → x.Blank) → UnusedBlank (Function.update t c x) := by
    intro c x hx i hi
    by_cases hic : i = c
    · subst i
      rw [Function.update_self] at hi ⊢
      exact hx hi
    · rw [Function.update_of_ne hic] at hi ⊢
      exact hblank i hi
  rcases serve_cases hu hblank hp hfinds [] with ⟨c, hc, hserve⟩ |
    ⟨c, x, hc, hunused, hx, -, hserve⟩ | ⟨-, -, hserve⟩
  · have hgives := hgives c hc
    rw [hserve] at hgives ⊢
    dsimp only at hgives
    rw [Function.update_self] at hgives
    exact hupdate hgives
  · rw [hserve]
    exact hupdate fun h0 => absurd (hx.symm.trans h0) hp
  · rwa [hserve]

end Serve

/-- The table, and the release calls made, each with the client whose event it was. -/
structure Attributed where
  clients : Clients
  calls : List (Pid × CeCall)

/-- The release calls made for a client. -/
def releasedFor (p : Pid) (calls : List (Pid × CeCall)) : List CeCall :=
  (calls.filter (·.1 = p)).map Prod.snd

namespace Attributed

/-- The server as it starts. -/
def zero : Attributed := ⟨Clients.zero, []⟩

/-- An event is handled. -/
def serve (a : Attributed) (ev : Event) : Attributed where
  clients := (Server.serve ⟨a.clients, []⟩ ev).clients
  calls := a.calls ++ (Server.serve ⟨a.clients, []⟩ ev).calls.map (ev.pid, ·)

/-- The event finds a slot if it needs one, and gives none up that is not blank. -/
def Undisturbed (a : Attributed) (ev : Event) : Prop :=
  ev.pid ≠ 0 ∧ FindsSlot a.clients ev ∧ GivesUpBlank a.clients ev

instance (a : Attributed) (ev : Event) : Decidable (a.Undisturbed ev) :=
  inferInstanceAs (Decidable (_ ∧ _))

/-- Slots are told apart by their pids, and unused ones are blank. -/
structure Tidy (a : Attributed) : Prop where
  unique : UniquePids a.clients
  blank : UnusedBlank a.clients

/-- What concerns a client. -/
def observe (a : Attributed) (p : Pid) : Option Client × List CeCall :=
  (record a.clients p, releasedFor p a.calls)

variable {a b : Attributed} {ev : Event} {p : Pid}

theorem Tidy.zero : Tidy zero where
  unique := uniquePids_zero
  blank _ _ := ⟨fun _ => rfl, fun _ => Or.inr rfl⟩

theorem Tidy.serve (ha : Tidy a) (h : a.Undisturbed ev) : Tidy (a.serve ev) where
  unique := (serve_contained ⟨a.clients, []⟩ ev).unique ha.unique
  blank := unusedBlank_serve ha.unique ha.blank h.1 h.2.1 h.2.2

@[simp] theorem releasedFor_append (p : Pid) (calls calls' : List (Pid × CeCall)) :
    releasedFor p (calls ++ calls') = releasedFor p calls ++ releasedFor p calls' := by
  simp [releasedFor]

theorem releasedFor_own (p : Pid) (calls : List CeCall) :
    releasedFor p (calls.map (p, ·)) = calls := by
  induction calls with
  | nil => rfl
  | cons call calls ih => simpa [releasedFor] using ih

theorem releasedFor_other {q : Pid} (hpq : q ≠ p) (calls : List CeCall) :
    releasedFor p (calls.map (q, ·)) = [] := by
  simp [releasedFor, hpq]

/-- An event of another client does not show. -/
theorem observe_other (hp : p ≠ 0) (hpq : ev.pid ≠ p) : (a.serve ev).observe p = a.observe p := by
  have hrecord : record (a.serve ev).clients p = record a.clients p :=
    record_of_onlyTouches (serve_contained ⟨a.clients, []⟩ ev).touches hp hpq.symm
  have hcalls : releasedFor p (a.serve ev).calls = releasedFor p a.calls := by
    simp only [Attributed.serve, releasedFor_append, releasedFor_other hpq, List.append_nil]
  rw [observe, hrecord, hcalls, observe]

/-- An event of the client itself shows as its outcome. -/
theorem observe_own (ha : Tidy a) (hp : ev.pid ≠ 0) (hfinds : FindsSlot a.clients ev) :
    (a.serve ev).observe ev.pid =
      ((ev.outcome (a.observe ev.pid).1).1.bind Client.kept,
        (a.observe ev.pid).2 ++ (ev.outcome (a.observe ev.pid).1).2) := by
  obtain ⟨hrecord, hcalls⟩ := record_serve ha.unique ha.blank hp hfinds []
  simp only [observe, Attributed.serve, hrecord, hcalls, releasedFor_append, releasedFor_own,
    List.nil_append]

/-- Two servers that are alike to a client; the second has no other clients. -/
structure Alike (p : Pid) (a b : Attributed) : Prop where
  left : Tidy a
  right : Tidy b
  only : ∀ i, (b.clients i).pid ≠ 0 → (b.clients i).pid = p
  same : a.observe p = b.observe p

namespace Alike

theorem zero (p : Pid) : Alike p Attributed.zero Attributed.zero :=
  ⟨Tidy.zero, Tidy.zero, fun _ h => absurd rfl h, rfl⟩

/-- A client that has the second server for itself finds a slot. -/
theorem findsSlot (h : Alike ev.pid a b) : FindsSlot b.clients ev := by
  cases ev with
  | engineOpen pid engine =>
      intro _ hnone
      have hfree : (b.clients 0).pid = 0 := by
        by_contra hne
        exact getClient_eq_none_iff.mp hnone 0 (h.only 0 hne)
      exact ⟨0, getClient_eq_some_iff.mpr ⟨hfree, fun j hj => absurd hj (Fin.not_lt_zero j)⟩⟩
  | _ => trivial

/-- What the client gives up is the same on both. -/
theorem givesUpBlank (h : Alike ev.pid a b) (hok : a.Undisturbed ev) :
    GivesUpBlank b.clients ev := by
  intro c hc
  have hrecord : record a.clients ev.pid = some (b.clients c) :=
    (congrArg Prod.fst h.same).trans (record_of_getClient hc)
  obtain ⟨i, hi, heq⟩ := Option.map_eq_some_iff.mp hrecord
  have hgives := hok.2.2 i hi
  rw [serve_found h.left.unique hok.1 hi, heq] at hgives
  rw [serve_found h.right.unique hok.1 hc]
  simpa using hgives

theorem own (h : Alike ev.pid a b) (hok : a.Undisturbed ev) :
    Alike ev.pid (a.serve ev) (b.serve ev) where
  left := h.left.serve hok
  right := h.right.serve ⟨hok.1, h.findsSlot, h.givesUpBlank hok⟩
  only i hi := by
    rcases (serve_contained ⟨b.clients, []⟩ ev).touches i with heq | ⟨-, hpid | hpid⟩
    · have hsame : (b.serve ev).clients i = b.clients i := heq
      rw [hsame] at hi ⊢
      exact h.only i hi
    · exact hpid
    · exact absurd hpid hi
  same := by
    rw [observe_own h.left hok.1 hok.2.1, observe_own h.right hok.1 h.findsSlot, h.same]

theorem other (h : Alike p a b) (hp : p ≠ 0) (hok : a.Undisturbed ev) (hne : ev.pid ≠ p) :
    Alike p (a.serve ev) b where
  left := h.left.serve hok
  right := h.right
  only := h.only
  same := (observe_other hp hne).trans h.same

end Alike

variable {evs evs' : List Event}

/-- With the events of the others taken out, a client sees the same. -/
theorem observe_own_events (run : Run serve Undisturbed zero evs) (hp : p ≠ 0) :
    (final serve zero evs).observe p = (final serve zero (evs.filter (·.pid = p))).observe p := by
  apply Alike.same
  apply run.unwind (m := fun ev => ev.pid = p) (Alike.zero p)
  · rintro a b ev h hok rfl
    exact h.own hok
  · intro a b ev h hok hne
    exact h.other hp hok hne

/-- What the table records for a client and what has been released on its behalf
depend on its own events only: two runs with the same events of the client agree
on both, whatever the other clients do. -/
theorem observe_eq_of_own_events (run : Run serve Undisturbed zero evs)
    (run' : Run serve Undisturbed zero evs') (hp : p ≠ 0)
    (hown : evs.filter (·.pid = p) = evs'.filter (·.pid = p)) :
    (final serve zero evs).observe p = (final serve zero evs').observe p := by
  rw [observe_own_events run hp, observe_own_events run' hp, hown]

/-- Process 7 opens an engine and creates a codec while process 8 comes and dies. -/
def besideAnother : List Event :=
  [.engineOpen 8 1, .engineOpen 7 2, .viddec3Create 8 1 3, .viddec3Create 7 2 4, .obit 8,
    .engineOpen 9 5]

/-- The same of process 7, with nobody else. -/
def byItself : List Event := [.engineOpen 7 2, .viddec3Create 7 2 4]

theorem observe_eq_of_own_events_seven :
    (final serve zero besideAnother).observe 7 = (final serve zero byItself).observe 7 := by
  have hbeside : Run serve Undisturbed zero besideAnother := by decide +kernel
  have halone : Run serve Undisturbed zero byItself := by decide +kernel
  exact observe_eq_of_own_events hbeside halone (by decide) (by decide)

end Attributed

end Libdce.Tracking
