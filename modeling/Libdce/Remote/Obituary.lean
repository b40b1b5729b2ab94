import Libdce.Remote.Handlers

/-!
# The cleanup callback

`dce_cleanup_cb` does not release anything by itself: it fills in the arguments
of a request, as the client would have sent it, and calls the handler. What it
comes to is what the tracking model says of a cleanup, with a Codec Engine call
for every handle that was left.

## Implementation notes

The arguments are a local variable of the loop body without initialiser, so that
each round finds arbitrary bytes behind the two fields it stores.
-/

namespace Libdce.Remote

open Foundation.Bytes Foundation.SlotArray Tracking Host

variable {κ : Type*}

/-- The stores into `args` of a round. -/
def releaseArgs (args : Buffer) (pid : Pid) (h : Handle) : Kind → Buffer
  | .engine => (args.put32 EngineCloseArgs.inPid pid).put32 EngineCloseArgs.inEngine h
  | .codec => (args.put32 Viddec3DeleteArgs.inPid pid).put32 Viddec3DeleteArgs.inCodec h

/-- The handler that a round calls. -/
def rpcRelease (ce : CodecEngine κ) (s : Worker κ) : Kind → Worker κ
  | .engine => rpcEngineClose ce s
  | .codec => rpcViddec3Delete ce s

section Callback

variable (ce : CodecEngine κ) (args : Kind → Fin 10 → Buffer)

/-- One round of a cleanup loop. -/
def cleanupRound (k : Kind) (pid : Pid) (c : Fin 10) (s : Worker κ) (i : Fin 10) : Worker κ :=
  if (s.clients c).cells k i ≠ 0 then
    rpcRelease ce { s with data := releaseArgs (args k i) pid ((s.clients c).cells k i) k } k
  else s

/-- `dce_cleanup_cb`, in the thread of the callback. -/
def dceCleanupCb (evt : SlpmEventType) (pid : Pid) (s : Worker κ) : Worker κ :=
  match evt with
  | .procObit =>
      match getClient s.clients pid with
      | some c =>
          sweep (cleanupRound ce args .engine pid c) (sweep (cleanupRound ce args .codec pid c) s)
      | none => s
  | .other => s

end Callback

/-- The Codec Engine call of a release. -/
def release : CeCall → CeRequest
  | ⟨.engine, h⟩ => .engineClose h
  | ⟨.codec, h⟩ => .viddec3Delete h

/-- Codec Engine after some releases in the name of a client. -/
def releaseAll (ce : CodecEngine κ) (pid : Pid) (calls : List CeCall) (engine : κ) : κ :=
  calls.foldl (fun engine call => (ce pid (release call) engine).2) engine

/-- What a handler does for a release. -/
def releaseActions (pid : Pid) (call : CeCall) : List Action :=
  [.unregister call.kind pid call.handle, .setEnv pid, .invoke pid (release call)]

section Spec

variable (ce : CodecEngine κ) {args : Kind → Fin 10 → Buffer} {pid : Pid} {c : Fin 10}

/-- A handler that is called for a handle unregisters and releases it. -/
theorem rpcRelease_eq (s : Worker κ) (buf : Buffer) (pid : Pid) (k : Kind) (h : Handle) :
    rpcRelease ce { s with data := releaseArgs buf pid h k } k =
      { data := releaseArgs buf pid h k
        env := pid
        clients := dceUnregister k s.clients pid h
        codecEngine := (ce pid (release ⟨k, h⟩) s.codecEngine).2
        actions := s.actions ++ releaseActions pid ⟨k, h⟩ } := by
  cases k with
  | engine =>
      have hpid : (releaseArgs buf pid h .engine).get32 EngineCloseArgs.inPid = pid := by
        rw [releaseArgs, Buffer.get32_put32_of_apart _ (by decide), Buffer.get32_put32]
      have hengine : (releaseArgs buf pid h .engine).get32 EngineCloseArgs.inEngine = h := by
        rw [releaseArgs, Buffer.get32_put32]
      simp only [rpcRelease, rpcEngineClose, Worker.unregister, Worker.setEnv, Worker.act,
        Worker.invoke, hpid, hengine, releaseActions, release, List.append_assoc]
      rfl
  | codec =>
      have hpid : (releaseArgs buf pid h .codec).get32 Viddec3DeleteArgs.inPid = pid := by
        rw [releaseArgs, Buffer.get32_put32_of_apart _ (by decide), Buffer.get32_put32]
      have hcodec : (releaseArgs buf pid h .codec).get32 Viddec3DeleteArgs.inCodec = h := by
        rw [releaseArgs, Buffer.get32_put32]
      simp only [rpcRelease, rpcViddec3Delete, Worker.unregister, Worker.setEnv, Worker.act,
        Worker.invoke, hpid, hcodec, releaseActions, release, List.append_assoc]
      rfl

/-- The callback has done what the tracking model has, and nothing else. -/
structure Mirrors (start s : Worker κ) (pid : Pid) (t : Server) : Prop where
  clients : s.clients = t.clients
  codecEngine : s.codecEngine = releaseAll ce pid t.calls start.codecEngine
  actions : s.actions = start.actions ++ t.calls.flatMap (releaseActions pid)

variable {ce} {start s : Worker κ} {t : Server}

theorem Mirrors.round (h : Mirrors ce start s pid t) (k : Kind) (i : Fin 10) :
    Mirrors ce start (cleanupRound ce args k pid c s i) pid (Tracking.cleanupRound k pid c t i) := by
  unfold cleanupRound Tracking.cleanupRound
  rw [h.clients]
  by_cases hcell : (t.clients c).cells k i ≠ 0
  · rw [if_pos hcell, if_pos hcell, rpcRelease_eq]
    refine ⟨?_, ?_, ?_⟩
    · simp only [Tracking.rpcRelease, h.clients]
    · simp only [Tracking.rpcRelease, releaseAll, h.codecEngine, List.foldl_append, List.foldl_cons,
        List.foldl_nil]
    · simp only [Tracking.rpcRelease, h.actions, List.flatMap_append, List.flatMap_cons,
        List.flatMap_nil, List.append_nil, List.append_assoc]
  · rw [if_neg hcell, if_neg hcell]
    exact h

/-- The callback does to the table what the tracking model says, and calls Codec Engine
once for each release, in the same order and in the name of the dead client. -/
theorem dceCleanupCb_mirrors (args : Kind → Fin 10 → Buffer) (s : Worker κ)
    (evt : SlpmEventType) (pid : Pid) :
    Mirrors ce s (dceCleanupCb ce args evt pid s) pid
      (Tracking.dceCleanupCb ⟨s.clients, []⟩ evt pid) := by
  have hstart : Mirrors ce s s pid ⟨s.clients, []⟩ := ⟨rfl, rfl, (List.append_nil _).symm⟩
  cases evt with
  | procObit =>
      simp only [dceCleanupCb, Tracking.dceCleanupCb]
      cases getClient s.clients pid with
      | some c =>
          have hcodecs := sweep_rel (R := fun x y => Mirrors ce s x pid y)
            (f := cleanupRound ce args .codec pid c) (g := Tracking.cleanupRound .codec pid c)
            hstart fun x y i h => h.round .codec i
          exact sweep_rel (R := fun x y => Mirrors ce s x pid y)
            (f := cleanupRound ce args .engine pid c) (g := Tracking.cleanupRound .engine pid c)
            hcodecs fun x y i h => h.round .engine i
      | none => exact hstart
  | other => exact hstart

end Spec

end Libdce.Remote
