import Libdce.Tracking.Ledger
import Libdce.Tracking.Tally

/-!
# Worker threads between the steps of a request

Several worker threads serve requests at the same time, and the cleanup callback
runs in a context of its own. A handler that opens or releases something takes
two steps, the one in Codec Engine and the one in the table; a control or
process call begins and ends. Every other action may come between two steps.

## Implementation notes

There is no bound on the number of workers: any waiting request may be taken at
any time. The state also says which handles clients have got and not given back,
which no handler looks at.
-/

namespace Libdce.Concurrency

open Tracking Foundation.GuardedRuns

/-- Counting decides a statement about all elements of a multiset without
comparing multisets. -/
scoped instance (priority := 10000) decidableForallMem {α : Type*} (m : Multiset α) (P : α → Prop)
    [DecidablePred P] :
    Decidable (∀ a ∈ m, P a) :=
  decidable_of_iff (m.countP (¬P ·) = 0) (by simp only [Multiset.countP_eq_zero, not_not])

scoped instance (priority := 10000) decidableForallFinset {α : Type*} (s : Finset α) (P : α → Prop)
    [DecidablePred P] :
    Decidable (∀ a ∈ s, P a) :=
  decidableForallMem s.val P

scoped instance (priority := 10000) decidableForallOption {α : Type*} (o : Option α) (P : α → Prop)
    [DecidablePred P] :
    Decidable (∀ a ∈ o, P a) :=
  Option.decidableForallMem o

/-- A message to the server. -/
inductive Request where
  | engineOpen (pid : Pid)
  | engineClose (pid : Pid) (engine : Handle)
  | viddec3Create (pid : Pid) (engine : Handle)
  | viddec3Control (pid : Pid) (codec : Handle)
  | viddec3Process (pid : Pid) (codec : Handle)
  | viddec3Delete (pid : Pid) (codec : Handle)
  deriving DecidableEq, Repr

namespace Request

/-- The client that sends the request. -/
def pid : Request → Pid
  | .engineOpen pid => pid
  | .engineClose pid _ => pid
  | .viddec3Create pid _ => pid
  | .viddec3Control pid _ => pid
  | .viddec3Process pid _ => pid
  | .viddec3Delete pid _ => pid

/-- The request that gives a handle back. -/
def release : Kind → Pid → Handle → Request
  | .engine => .engineClose
  | .codec => .viddec3Delete

/-- The request asks for a new engine or codec. -/
@[reducible] def Opens : Request → Prop
  | .engineOpen _ => True
  | .viddec3Create _ _ => True
  | _ => False

/-- The codec that a control or process call works on. -/
def callee : Request → Option Handle
  | .viddec3Control _ codec => some codec
  | .viddec3Process _ codec => some codec
  | _ => none

/-- The object that the request names. -/
def names : Request → Option CeCall
  | .engineOpen _ => none
  | .engineClose _ engine => some ⟨.engine, engine⟩
  | .viddec3Create _ engine => some ⟨.engine, engine⟩
  | .viddec3Control _ codec => some ⟨.codec, codec⟩
  | .viddec3Process _ codec => some ⟨.codec, codec⟩
  | .viddec3Delete _ codec => some ⟨.codec, codec⟩

/-- A reducible property of requests is decidable when it is for each of them. -/
@[reducible] protected def decidable {P : Request → Prop} [∀ pid, Decidable (P (.engineOpen pid))]
    [∀ pid engine, Decidable (P (.engineClose pid engine))]
    [∀ pid engine, Decidable (P (.viddec3Create pid engine))]
    [∀ pid codec, Decidable (P (.viddec3Control pid codec))]
    [∀ pid codec, Decidable (P (.viddec3Process pid codec))]
    [∀ pid codec, Decidable (P (.viddec3Delete pid codec))] : DecidablePred P
  | .engineOpen _ | .engineClose _ _ | .viddec3Create _ _ | .viddec3Control _ _
  | .viddec3Process _ _ | .viddec3Delete _ _ => inferInstance

instance : DecidablePred Opens := Request.decidable

@[simp] theorem release_pid (k : Kind) (p : Pid) (h : Handle) : (release k p h).pid = p := by
  cases k <;> rfl

@[simp] theorem release_names (k : Kind) (p : Pid) (h : Handle) :
    (release k p h).names = some ⟨k, h⟩ := by
  cases k <;> rfl

@[simp] theorem not_opens_release (k : Kind) (p : Pid) (h : Handle) : ¬(release k p h).Opens := by
  cases k <;> exact id

theorem release_inj {k k' : Kind} {p p' : Pid} {h h' : Handle} :
    release k p h = release k' p' h' ↔ k = k' ∧ p = p' ∧ h = h' := by
  cases k <;> cases k' <;> simp [release]

theorem names_of_callee {r : Request} {codec : Handle} (h : r.callee = some codec) :
    r.names = some ⟨.codec, codec⟩ := by
  cases r <;> cases h <;> rfl

end Request

/-- What a worker has still to do for a request it has taken. -/
inductive Task where
  | registering (kind : Kind) (pid : Pid) (h : Handle)
  | releasing (kind : Kind) (pid : Pid) (h : Handle)
  | running (r : Request)
  deriving DecidableEq, Repr

/-- The client whose request the worker serves. -/
def Task.pid : Task → Pid
  | .registering _ pid _ => pid
  | .releasing _ pid _ => pid
  | .running r => r.pid

/-- The worker has an object that is not registered yet. -/
def Task.Registers : Task → Prop
  | .registering _ _ _ => True
  | _ => False

instance : ∀ t : Task, Decidable t.Registers
  | .registering _ _ _ => isTrue trivial
  | .releasing _ _ _ => isFalse id
  | .running _ => isFalse id

/-- The table, what Codec Engine has open, the requests that wait, the workers
in the middle of a request, the handles returned to clients and not given back,
and the processes that died and those whose obit was handled. -/
structure State where
  clients : Clients
  ledger : Ledger
  waiting : Multiset Request
  tasks : Multiset Task
  held : Multiset Holding
  dead : Finset Pid
  buried : Finset Pid

/-- Nothing has happened yet. -/
def State.zero : State := ⟨Clients.zero, Ledger.empty, 0, 0, 0, ∅, ∅⟩

/-- One atomic step of a client, of a worker or of the cleanup. -/
inductive Action where
  | send (r : Request)
  | die (pid : Pid)
  | engineOpen (pid : Pid) (engine : Handle)
  | viddec3Create (pid : Pid) (engine codec : Handle)
  | register (kind : Kind) (pid : Pid) (h : Handle)
  | unregister (kind : Kind) (pid : Pid) (h : Handle)
  | release (kind : Kind) (pid : Pid) (h : Handle)
  | begin (r : Request)
  | finish (r : Request)
  | obit (pid : Pid)
  deriving DecidableEq, Repr

/-- A reducible property of actions is decidable when it is for each of them. -/
@[reducible] protected def Action.decidable {P : Action → Prop} [∀ r, Decidable (P (.send r))]
    [∀ pid, Decidable (P (.die pid))] [∀ pid engine, Decidable (P (.engineOpen pid engine))]
    [∀ pid engine codec, Decidable (P (.viddec3Create pid engine codec))]
    [∀ k pid h, Decidable (P (.register k pid h))]
    [∀ k pid h, Decidable (P (.unregister k pid h))]
    [∀ k pid h, Decidable (P (.release k pid h))] [∀ r, Decidable (P (.begin r))]
    [∀ r, Decidable (P (.finish r))] [∀ pid, Decidable (P (.obit pid))] : DecidablePred P
  | .send _ | .die _ | .engineOpen _ _ | .viddec3Create _ _ _ | .register _ _ _
  | .unregister _ _ _ | .release _ _ _ | .begin _ | .finish _ | .obit _ => inferInstance

namespace State

/-- The object that a worker was given by Codec Engine and has to register. -/
def granted (s : State) (k : Kind) (pid : Pid) (h : Handle) : Multiset Task :=
  if h = 0 then s.tasks else .registering k pid h ::ₘ s.tasks

/-- A client gives up what it gives back. -/
def heldAfterSend (s : State) : Request → Multiset Holding
  | .engineClose pid engine => s.held.erase ⟨.engine, pid, engine⟩
  | .viddec3Delete pid codec => s.held.erase ⟨.codec, pid, codec⟩
  | _ => s.held

/-- What each step does. The steps of a worker follow the handlers: Codec Engine
first and then the table for `rpc_Engine_open` and `rpc_VIDDEC3_create`, the
table first for `rpc_Engine_close` and `rpc_VIDDEC3_delete`. -/
def step (s : State) : Action → State
  | .send r => { s with waiting := r ::ₘ s.waiting, held := s.heldAfterSend r }
  | .die pid => { s with dead := insert pid s.dead }
  | .engineOpen pid engine =>
      { s with
        waiting := s.waiting.erase (.engineOpen pid)
        ledger := s.ledger.grant (.engineOpen pid engine)
        tasks := s.granted .engine pid engine }
  | .viddec3Create pid engine codec =>
      { s with
        waiting := s.waiting.erase (.viddec3Create pid engine)
        ledger := s.ledger.grant (.viddec3Create pid engine codec)
        tasks := s.granted .codec pid codec }
  | .register k pid h =>
      { s with
        clients := dceRegister k s.clients pid h
        tasks := s.tasks.erase (.registering k pid h)
        held := ⟨k, pid, h⟩ ::ₘ s.held }
  | .unregister k pid h =>
      { s with
        waiting := s.waiting.erase (.release k pid h)
        clients := dceUnregister k s.clients pid h
        tasks := .releasing k pid h ::ₘ s.tasks }
  | .release k pid h =>
      { s with
        ledger := s.ledger.release ⟨k, h⟩
        tasks := s.tasks.erase (.releasing k pid h) }
  | .begin r => { s with waiting := s.waiting.erase r, tasks := .running r ::ₘ s.tasks }
  | .finish r => { s with tasks := s.tasks.erase (.running r) }
  | .obit pid =>
      let server := dceCleanupCb ⟨s.clients, []⟩ .procObit pid
      { s with
        clients := server.clients
        ledger := s.ledger.releaseAll server.calls
        buried := insert pid s.buried }

/-- When a step may be taken: clients send while they live, workers go on with
what there is, Codec Engine returns the null handle or one that is not open, and
the obit of a dead process is handled once. -/
@[reducible] def Legal (s : State) : Action → Prop
  | .send r => r.pid ≠ 0 ∧ r.pid ∉ s.dead
  | .die pid => pid ≠ 0
  | .engineOpen pid engine =>
      .engineOpen pid ∈ s.waiting ∧ (engine = 0 ∨ ¬s.ledger.IsOpen .engine engine)
  | .viddec3Create pid engine codec =>
      .viddec3Create pid engine ∈ s.waiting ∧ (codec = 0 ∨ ¬s.ledger.IsOpen .codec codec)
  | .register k pid h => .registering k pid h ∈ s.tasks
  | .unregister k pid h => .release k pid h ∈ s.waiting
  | .release k pid h => .releasing k pid h ∈ s.tasks
  | .begin r => r ∈ s.waiting ∧ r.callee ≠ none
  | .finish r => .running r ∈ s.tasks
  | .obit pid => pid ∈ s.dead ∧ pid ∉ s.buried

instance (s : State) : DecidablePred s.Legal := Action.decidable

/-- The part of the state that the handlers of one request at a time work on. -/
def world (s : State) : World := ⟨s.clients, s.ledger, s.buried⟩

end State

/-- The steps of a handler that is not interrupted. -/
def Action.ofEvent : Event → List Action
  | .engineOpen pid engine =>
      .engineOpen pid engine :: if engine = 0 then [] else [.register .engine pid engine]
  | .engineClose pid engine => [.unregister .engine pid engine, .release .engine pid engine]
  | .viddec3Create pid engine codec =>
      .viddec3Create pid engine codec :: if codec = 0 then [] else [.register .codec pid codec]
  | .viddec3Control pid codec =>
      [.begin (.viddec3Control pid codec), .finish (.viddec3Control pid codec)]
  | .viddec3Process pid codec =>
      [.begin (.viddec3Process pid codec), .finish (.viddec3Process pid codec)]
  | .viddec3Delete pid codec => [.unregister .codec pid codec, .release .codec pid codec]
  | .obit pid => [.obit pid]

/-- Taken without interruption, the steps of a handler are the handler. -/
theorem State.world_final_ofEvent (s : State) (ev : Event) :
    (final step s (Action.ofEvent ev)).world = s.world.step ev := by
  cases ev with
  | engineOpen pid engine =>
      by_cases h : engine = 0
      · simp only [Action.ofEvent, h, if_true, World.step_engineOpen_null]
        rfl
      · simp only [Action.ofEvent, h, if_false, World.step_engineOpen _ _ h]
        simp only [final_cons, final_nil, step, world, Ledger.grant, h, if_false]
        rfl
  | viddec3Create pid engine codec =>
      by_cases h : codec = 0
      · simp only [Action.ofEvent, h, if_true, World.step_viddec3Create_null]
        rfl
      · simp only [Action.ofEvent, h, if_false, World.step_viddec3Create _ _ _ h]
        simp only [final_cons, final_nil, step, world, Ledger.grant, h, if_false]
        rfl
  | engineClose pid engine => rfl
  | viddec3Control pid codec => rfl
  | viddec3Process pid codec => rfl
  | viddec3Delete pid codec => rfl
  | obit pid => rfl

end Libdce.Concurrency
