import Libdce.Tracking.Records

/-!
# The accesses to the table

The functions that look after the table have no critical section: a worker may
be interrupted between any two of its accesses to `clients`, and so may the
cleanup callback. A task is where a thread is in these functions, and a step of
a thread is its next access.

## Implementation notes

`c->refs++` and `c->refs--` are a read and a write. What a handler does besides
is left out, but the release calls that follow an unregistration are recorded,
each with its client. The state also carries the server that handles every event
at once when it arrives, which no step looks at.
-/

namespace Libdce.Concurrency.Unlocked

open Tracking

/-- Which of the two pairs of functions is run. -/
inductive Change where
  | register
  | unregister
  deriving DecidableEq, Repr

/-- A call of `dce_register_engine`, `dce_register_codec`, `dce_unregister_engine` or
`dce_unregister_codec`. -/
structure Job where
  change : Change
  kind : Kind
  pid : Pid
  h : Handle
  deriving DecidableEq, Repr

/-- The next access in one of the four functions. -/
inductive Place where
  /-- `clients[i].pid == pid` in `get_client(pid)`. -/
  | lookUp (i : ℕ)
  /-- The read of `c->refs++` or `c->refs--`. -/
  | loadRefs (c : Fin 10)
  /-- The write of `c->refs++` or `c->refs--`. -/
  | storeRefs (c : Fin 10) (refs : Word)
  /-- The test of a cell of the handle array. -/
  | scan (c : Fin 10) (j : ℕ)
  /-- The write to that cell. -/
  | write (c : Fin 10) (j : Fin 10)
  /-- `if (! c->refs)`. -/
  | testRefs (c : Fin 10)
  /-- `c->pid = 0`. -/
  | vacate (c : Fin 10)
  /-- `clients[i].pid == 0` in `get_client(0)`. -/
  | lookUpFree (i : ℕ)
  /-- `c->pid = pid`. -/
  | claimPid (c : Fin 10)
  /-- `c->refs = 1`. -/
  | claimRefs (c : Fin 10)
  /-- `c->engines[0] = engine`. -/
  | claimCell (c : Fin 10)
  deriving DecidableEq, Repr

/-- A write to a handle array. -/
def setCell (c : Client) (j : Fin 10) (h : Handle) : Kind → Client
  | .engine => { c with engines := Function.update c.engines j h }
  | .codec => { c with codecs := Function.update c.codecs j h }

namespace Job

variable (job : Job)

/-- The function takes over an unused slot if its client has none. -/
def Opens : Prop := job.change = .register ∧ job.kind = .engine

/-- After `get_client` has found the slot. -/
def found (c : Fin 10) : Place :=
  match job.change with
  | .register => .loadRefs c
  | .unregister => .scan c 0

/-- After `get_client` has found none; only `dce_register_engine` goes on. -/
def absent : Option Place :=
  match job.change, job.kind with
  | .register, .engine => some (.lookUpFree 0)
  | _, _ => none

/-- The count that is written for the one that was read. -/
def count (refs : Word) : Word :=
  match job.change with
  | .register => refs + 1
  | .unregister => refs - 1

/-- After the count is written. -/
def counted (c : Fin 10) : Option Place :=
  match job.change, job.kind with
  | .register, _ => some (.scan c 0)
  | .unregister, .engine => some (.testRefs c)
  | .unregister, .codec => none

/-- What the loop over the array looks for, and what it writes there. -/
def sought : Handle :=
  match job.change with
  | .register => 0
  | .unregister => job.h

def written : Handle :=
  match job.change with
  | .register => job.h
  | .unregister => 0

/-- After the loop over the array. -/
def scanned (c : Fin 10) : Option Place :=
  match job.change with
  | .register => none
  | .unregister => some (.loadRefs c)

/-- An access: the table after it, and the next one unless the function returns. -/
def advance (t : Clients) : Place → Clients × Option Place
  | .lookUp i =>
      if hi : i < 10 then
        if (t ⟨i, hi⟩).pid = job.pid then (t, some (job.found ⟨i, hi⟩))
        else (t, some (.lookUp (i + 1)))
      else (t, job.absent)
  | .loadRefs c => (t, some (.storeRefs c (t c).refs))
  | .storeRefs c refs =>
      (Function.update t c { t c with refs := job.count refs }, job.counted c)
  | .scan c j =>
      if hj : j < 10 then
        if (t c).cells job.kind ⟨j, hj⟩ = job.sought then (t, some (.write c ⟨j, hj⟩))
        else (t, some (.scan c (j + 1)))
      else (t, job.scanned c)
  | .write c j =>
      (Function.update t c (setCell (t c) j job.written job.kind), job.scanned c)
  | .testRefs c => (t, if (t c).refs = 0 then some (.vacate c) else none)
  | .vacate c => (Function.update t c { t c with pid := 0 }, none)
  | .lookUpFree i =>
      if hi : i < 10 then
        if (t ⟨i, hi⟩).pid = 0 then (t, some (.claimPid ⟨i, hi⟩))
        else (t, some (.lookUpFree (i + 1)))
      else (t, none)
  | .claimPid c => (Function.update t c { t c with pid := job.pid }, some (.claimRefs c))
  | .claimRefs c => (Function.update t c { t c with refs := 1 }, some (.claimCell c))
  | .claimCell c =>
      (Function.update t c { t c with engines := Function.update (t c).engines 0 job.h }, none)

/-- The release call behind an unregistration. -/
def releases : List CeCall :=
  match job.change with
  | .register => []
  | .unregister => [⟨job.kind, job.h⟩]

end Job

/-- The function is about to take over an unused slot, or has not finished doing so. -/
@[reducible] def Place.Claims (t : Clients) (job : Job) : Place → Prop
  | .lookUp _ => job.Opens ∧ getClient t job.pid = none
  | .lookUpFree _ => True
  | .claimPid _ => True
  | .claimRefs _ => True
  | .claimCell _ => True
  | _ => False

instance (job : Job) : Decidable job.Opens := inferInstanceAs (Decidable (_ ∧ _))

instance (t : Clients) (job : Job) : DecidablePred (Place.Claims t job)
  | .lookUp _ | .loadRefs _ | .storeRefs _ _ | .scan _ _ | .write _ _ | .testRefs _ | .vacate _
  | .lookUpFree _ | .claimPid _ | .claimRefs _ | .claimCell _ => inferInstance

/-- Where a thread is. -/
inductive Task where
  /-- In a function that the handler of a request has called. -/
  | handler (job : Job) (place : Place)
  /-- In `dce_cleanup_cb`: the test of `get_client(pid)`. -/
  | lookUp (pid : Pid) (i : ℕ)
  /-- The test at the head of a cleanup loop. -/
  | test (pid : Pid) (k : Kind) (c : Fin 10) (i : ℕ)
  /-- The read of the entry that the handler is called with. -/
  | pick (pid : Pid) (k : Kind) (c : Fin 10) (i : Fin 10)
  /-- In the handler that the cleanup has called. -/
  | nested (pid : Pid) (k : Kind) (c : Fin 10) (i : Fin 10) (h : Handle) (place : Place)
  deriving DecidableEq, Repr

namespace Task

/-- The client that the task is about. -/
def pid : Task → Pid
  | .handler job _ => job.pid
  | .lookUp pid _ => pid
  | .test pid _ _ _ => pid
  | .pick pid _ _ _ => pid
  | .nested pid _ _ _ _ _ => pid

/-- The next access of a thread: the table, where the thread is unless it is done, and
the release calls that it has made by then. -/
def advance (t : Clients) : Task → Clients × Option Task × List CeCall
  | .handler job place =>
      match job.advance t place with
      | (t, some place) => (t, some (.handler job place), [])
      | (t, none) => (t, none, job.releases)
  | .lookUp pid i =>
      if hi : i < 10 then
        if (t ⟨i, hi⟩).pid = pid then (t, some (.test pid .codec ⟨i, hi⟩ 0), [])
        else (t, some (.lookUp pid (i + 1)), [])
      else (t, none, [])
  | .test pid k c i =>
      if hi : i < 10 then
        if (t c).cells k ⟨i, hi⟩ ≠ 0 then (t, some (.pick pid k c ⟨i, hi⟩), [])
        else (t, some (.test pid k c (i + 1)), [])
      else
        match k with
        | .codec => (t, some (.test pid .engine c 0), [])
        | .engine => (t, none, [])
  | .pick pid k c i => (t, some (.nested pid k c i ((t c).cells k i) (.lookUp 0)), [])
  | .nested pid k c i h place =>
      match Job.advance ⟨.unregister, k, pid, h⟩ t place with
      | (t, some place) => (t, some (.nested pid k c i h place), [])
      | (t, none) => (t, some (.test pid k c (i + 1)), [⟨k, h⟩])

/-- The first access of an event, if it comes to the table at all. -/
def ofEvent : Event → Option Task
  | .engineOpen pid engine =>
      if engine ≠ 0 then some (.handler ⟨.register, .engine, pid, engine⟩ (.lookUp 0)) else none
  | .engineClose pid engine => some (.handler ⟨.unregister, .engine, pid, engine⟩ (.lookUp 0))
  | .viddec3Create pid _ codec =>
      if codec ≠ 0 then some (.handler ⟨.register, .codec, pid, codec⟩ (.lookUp 0)) else none
  | .viddec3Control _ _ => none
  | .viddec3Process _ _ => none
  | .viddec3Delete pid codec => some (.handler ⟨.unregister, .codec, pid, codec⟩ (.lookUp 0))
  | .obit pid => some (.lookUp pid 0)

/-- The task is in `dce_cleanup_cb`. -/
@[reducible] def Cleans : Task → Prop
  | .handler _ _ => False
  | _ => True

/-- The task takes over an unused slot. -/
@[reducible] def Claims (t : Clients) : Task → Prop
  | .handler job place => place.Claims t job
  | _ => False

/-- A reducible property of tasks is decidable when it is for each of them. -/
@[reducible] protected def decidable {P : Task → Prop}
    [∀ job place, Decidable (P (.handler job place))] [∀ pid i, Decidable (P (.lookUp pid i))]
    [∀ pid k c i, Decidable (P (.test pid k c i))] [∀ pid k c i, Decidable (P (.pick pid k c i))]
    [∀ pid k c i h place, Decidable (P (.nested pid k c i h place))] : DecidablePred P
  | .handler _ _ | .lookUp _ _ | .test _ _ _ _ | .pick _ _ _ _ | .nested _ _ _ _ _ _ => inferInstance

instance : DecidablePred Cleans := Task.decidable

instance (t : Clients) : DecidablePred (Claims t) := Task.decidable

end Task

variable {ι : Type*} [DecidableEq ι]

/-- The table, the threads in the middle of an event, the release calls made, and the
server that handles each event when it arrives. -/
structure State (ι : Type*) where
  clients : Clients
  tasks : ι → Option Task
  calls : List (Pid × CeCall)
  spec : Attributed

/-- Nothing has happened yet. -/
def State.zero : State ι := ⟨Clients.zero, fun _ => none, [], Attributed.zero⟩

/-- An event reaches a thread, or a thread makes its next access. -/
inductive Action (ι : Type*) where
  | start (w : ι) (ev : Event)
  | advance (w : ι)
  deriving DecidableEq, Repr

/-- The events, in the order in which they arrive. -/
def started (actions : List (Action ι)) : List Event :=
  actions.filterMap fun
    | .start _ ev => some ev
    | .advance _ => none

namespace State

/-- What each action does. -/
def step (s : State ι) : Action ι → State ι
  | .start w ev =>
      { s with tasks := Function.update s.tasks w (Task.ofEvent ev), spec := s.spec.serve ev }
  | .advance w =>
      match s.tasks w with
      | none => s
      | some task =>
          { s with
            clients := (task.advance s.clients).1
            tasks := Function.update s.tasks w (task.advance s.clients).2.1
            calls := s.calls ++ (task.advance s.clients).2.2.map (task.pid, ·) }

/-- No thread is in the middle of an event of the client. -/
def Idle (s : State ι) (p : Pid) : Prop := ∀ w, ∀ task ∈ s.tasks w, task.pid ≠ p

/-- The event is the first open of its client. -/
@[reducible] def IsFirstOpen (s : State ι) : Event → Prop
  | .engineOpen pid engine => engine ≠ 0 ∧ getClient s.clients pid = none
  | _ => False

/-- When an event of a process may arrive: the thread is not busy, and no other event of
the client is being handled. The event does not make the server give up a slot with handles in it. A
first open finds an unused slot, and neither another first open nor a cleanup is going on;
nor is a first open when a cleanup starts. -/
@[reducible] def Legal (s : State ι) : Action ι → Prop
  | .start w ev =>
      s.tasks w = none ∧ s.Idle ev.pid ∧ ev.pid ≠ 0 ∧ GivesUpBlank s.spec.clients ev ∧
        (s.IsFirstOpen ev → (∃ i, (s.clients i).pid = 0) ∧
          ∀ w', ∀ task ∈ s.tasks w', ¬task.Claims s.clients ∧ ¬task.Cleans) ∧
        (ev = .obit ev.pid → ∀ w', ∀ task ∈ s.tasks w', ¬task.Claims s.clients)
  | .advance _ => True

section Decidable

variable [Fintype ι]

instance (s : State ι) (p : Pid) : Decidable (s.Idle p) :=
  inferInstanceAs (Decidable (∀ w, ∀ task ∈ s.tasks w, task.pid ≠ p))

instance (s : State ι) : DecidablePred s.IsFirstOpen := Event.decidable

instance (s : State ι) : DecidablePred s.Legal
  | .start _ _ | .advance _ => inferInstance

end Decidable

end State

end Libdce.Concurrency.Unlocked
