import Libdce.Tracking.Cleanup
import Libdce.Foundation.GuardedRuns

/-!
# Requests of one client leave the slots of the others alone

The events that reach the server one at a time, and what an event of a client
can do to the table. Nothing is assumed about the handles a client names or
about the answers of Codec Engine, so the counts may drift and slots may be
given up while they still hold handles.
-/

namespace Libdce.Tracking

open Foundation.SlotArray Foundation.GuardedRuns

/-- A request of a client, with the answer of Codec Engine where there is one,
or the obit of a process. -/
inductive Event
  | engineOpen (pid : Pid) (engine : Handle)
  | engineClose (pid : Pid) (engine : Handle)
  | viddec3Create (pid : Pid) (engine codec : Handle)
  | viddec3Control (pid : Pid) (codec : Handle)
  | viddec3Process (pid : Pid) (codec : Handle)
  | viddec3Delete (pid : Pid) (codec : Handle)
  | obit (pid : Pid)
  deriving DecidableEq, Repr

/-- The client an event belongs to. -/
def Event.pid : Event → Pid
  | .engineOpen pid _ => pid
  | .engineClose pid _ => pid
  | .viddec3Create pid _ _ => pid
  | .viddec3Control pid _ => pid
  | .viddec3Process pid _ => pid
  | .viddec3Delete pid _ => pid
  | .obit pid => pid

/-- A reducible property of events is decidable when it is for each of them. -/
@[reducible] def Event.decidable {P : Event → Prop}
    [∀ pid engine, Decidable (P (.engineOpen pid engine))]
    [∀ pid engine, Decidable (P (.engineClose pid engine))]
    [∀ pid engine codec, Decidable (P (.viddec3Create pid engine codec))]
    [∀ pid codec, Decidable (P (.viddec3Control pid codec))]
    [∀ pid codec, Decidable (P (.viddec3Process pid codec))]
    [∀ pid codec, Decidable (P (.viddec3Delete pid codec))]
    [∀ pid, Decidable (P (.obit pid))] : DecidablePred P
  | .engineOpen _ _ | .engineClose _ _ | .viddec3Create _ _ _ | .viddec3Control _ _
  | .viddec3Process _ _ | .viddec3Delete _ _ | .obit _ => inferInstance

/-- The server as it starts. -/
def Server.zero : Server := ⟨Clients.zero, []⟩

/-- The handlers, each run to its end. Control and process calls do not touch
the table. -/
def Server.serve (s : Server) : Event → Server
  | .engineOpen pid engine => rpcEngineOpen s pid engine
  | .engineClose pid engine => rpcEngineClose s pid engine
  | .viddec3Create pid _ codec => rpcViddec3Create s pid codec
  | .viddec3Control _ _ => s
  | .viddec3Process _ _ => s
  | .viddec3Delete pid codec => rpcViddec3Delete s pid codec
  | .obit pid => dceCleanupCb s .procObit pid

/-- Every slot is as it was, or was the client's or unused and still is. -/
def OnlyTouches (p : Pid) (t t' : Clients) : Prop :=
  ∀ i, t' i = t i ∨
    ((t i).pid = p ∨ (t i).pid = 0) ∧ ((t' i).pid = p ∨ (t' i).pid = 0)

section OnlyTouches

variable {p : Pid} {t t' t'' : Clients}

theorem OnlyTouches.refl (p : Pid) (t : Clients) : OnlyTouches p t t := fun _ => Or.inl rfl

theorem OnlyTouches.trans (h : OnlyTouches p t t') (h' : OnlyTouches p t' t'') :
    OnlyTouches p t t'' := by
  intro i
  rcases h' i with heq' | hchange'
  · rw [heq']
    exact h i
  · rcases h i with heq | hchange
    · rw [heq] at hchange'
      exact Or.inr hchange'
    · exact Or.inr ⟨hchange.1, hchange'.2⟩

theorem OnlyTouches.update {i : Fin 10} {c : Client} (hold : (t i).pid = p ∨ (t i).pid = 0)
    (hnew : c.pid = p ∨ c.pid = 0) : OnlyTouches p t (Function.update t i c) := by
  intro j
  by_cases hj : j = i
  · subst j
    rw [Function.update_self]
    exact Or.inr ⟨hold, hnew⟩
  · exact Or.inl (Function.update_of_ne hj _ _)

/-- A slot of another client is untouched. -/
theorem OnlyTouches.other (h : OnlyTouches p t t') {i : Fin 10} (hi : (t i).pid ≠ 0)
    (hp : (t i).pid ≠ p) : t' i = t i := by
  rcases h i with heq | ⟨hpid | hpid, _⟩
  · exact heq
  · exact absurd hpid hp
  · exact absurd hpid hi

end OnlyTouches

/-- What each handler guarantees to the table: pids stay unique and only slots
of the client and unused ones change. -/
structure Contained (p : Pid) (t t' : Clients) : Prop where
  unique : UniquePids t → UniquePids t'
  touches : OnlyTouches p t t'

section Handlers

variable {p : Pid} {t t' t'' : Clients}

theorem Contained.refl (p : Pid) (t : Clients) : Contained p t t := ⟨id, OnlyTouches.refl p t⟩

theorem Contained.trans (h : Contained p t t') (h' : Contained p t' t'') : Contained p t t'' :=
  ⟨h'.unique ∘ h.unique, h.touches.trans h'.touches⟩

/-- A change of the client's own slot that keeps its pid or gives it up. -/
theorem Contained.own {i : Fin 10} {c : Client} (hi : getClient t p = some i)
    (hc : c.pid = p ∨ c.pid = 0) : Contained p t (Function.update t i c) where
  unique := fun ht => ht.update_of_pid (by rwa [pid_of_getClient hi])
  touches := OnlyTouches.update (Or.inl (pid_of_getClient hi)) hc

theorem dceRegisterEngine_contained (t : Clients) (p : Pid) (engine : Handle) :
    Contained p t (dceRegisterEngine t p engine) := by
  unfold dceRegisterEngine
  cases hi : getClient t p with
  | some i => exact Contained.own hi (Or.inl (by simp [pid_of_getClient hi]))
  | none =>
      cases hfree : getClient t 0 with
      | none => exact Contained.refl p t
      | some i =>
          exact ⟨fun ht => ht.update_fresh hi (Client.occupy_pid ..),
            OnlyTouches.update (Or.inr (pid_of_getClient hfree)) (Or.inl (Client.occupy_pid ..))⟩

theorem dceRegisterCodec_contained (t : Clients) (p : Pid) (codec : Handle) :
    Contained p t (dceRegisterCodec t p codec) := by
  unfold dceRegisterCodec
  cases hi : getClient t p with
  | none => exact Contained.refl p t
  | some i => exact Contained.own hi (Or.inl (by simp [pid_of_getClient hi]))

theorem dceUnregister_contained (k : Kind) (t : Clients) (p : Pid) (h : Handle) :
    Contained p t (dceUnregister k t p h) := by
  cases hi : getClient t p with
  | none =>
      rw [dceUnregister_absent k h hi]
      exact Contained.refl p t
  | some i =>
      rw [dceUnregister_found k h hi]
      apply Contained.own hi
      have hpid := ((t i).drop k h).settle_pid_or k
      rwa [Client.drop_pid, pid_of_getClient hi] at hpid

theorem sweep_contained (k : Kind) (p : Pid) (c : Fin 10) (s : Server) :
    Contained p s.clients (sweep (cleanupRound k p c) s).clients := by
  refine sweep_invariant (n := 10) (f := cleanupRound k p c)
    (I := fun _ s' => Contained p s.clients s'.clients) (Contained.refl p _) ?_
  intro i s' hs'
  unfold cleanupRound
  split
  · exact hs'.trans (dceUnregister_contained k _ p _)
  · exact hs'

/-- The cleanup goes through a slot whose pid it may have just given up; the
handlers it calls still touch nothing but slots of the dead client. -/
theorem dceCleanupCb_contained (s : Server) (p : Pid) :
    Contained p s.clients (dceCleanupCb s .procObit p).clients := by
  cases hc : getClient s.clients p with
  | none =>
      rw [dceCleanupCb_absent hc]
      exact Contained.refl p _
  | some c =>
      simp only [dceCleanupCb, hc]
      exact (sweep_contained .codec p c s).trans (sweep_contained .engine p c _)

theorem serve_contained (s : Server) (ev : Event) :
    Contained ev.pid s.clients (s.serve ev).clients := by
  cases ev with
  | engineOpen pid engine =>
      simp only [Server.serve, rpcEngineOpen]
      split
      · exact dceRegisterEngine_contained _ pid engine
      · exact Contained.refl pid _
  | engineClose pid engine => exact dceUnregister_contained .engine _ pid engine
  | viddec3Create pid engine codec =>
      simp only [Server.serve, rpcViddec3Create]
      split
      · exact dceRegisterCodec_contained _ pid codec
      · exact Contained.refl pid _
  | viddec3Control pid codec => exact Contained.refl pid _
  | viddec3Process pid codec => exact Contained.refl pid _
  | viddec3Delete pid codec => exact dceUnregister_contained .codec _ pid codec
  | obit pid => exact dceCleanupCb_contained s pid

end Handlers

/-- In every state that any sequence of events leads to, pids are unique, and
the next event of a client leaves every slot of another client as it is. -/
theorem events_leave_other_slots (evs : List Event) :
    UniquePids (final Server.serve Server.zero evs).clients ∧
      ∀ (ev : Event) (i : Fin 10),
        ((final Server.serve Server.zero evs).clients i).pid ≠ 0 →
        ((final Server.serve Server.zero evs).clients i).pid ≠ ev.pid →
        ((final Server.serve Server.zero evs).serve ev).clients i =
          (final Server.serve Server.zero evs).clients i := by
  have hrun : Run Server.serve (fun _ _ => True) Server.zero evs := by
    rw [run_iff_stepwise]
    exact fun _ _ _ => trivial
  have hunique : UniquePids (final Server.serve Server.zero evs).clients :=
    hrun.invariant (I := fun s => UniquePids s.clients) uniquePids_zero
      fun s ev hs _ => (serve_contained s ev).unique hs
  exact ⟨hunique, fun ev _ hi hne => (serve_contained _ ev).touches.other hi hne⟩

end Libdce.Tracking
