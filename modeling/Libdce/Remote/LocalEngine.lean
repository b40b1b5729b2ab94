import Libdce.Foundation.GuardedRuns
import Libdce.Remote.Obituary
import Libdce.Remote.Transparency

/-!
# As if Codec Engine were local

Client processes with connections of their own share one server, which is told
when a process dies. To its clients the whole of it, from stub to handler, is a
Codec Engine that they call directly: every call of a run returns the same, and
Codec Engine and the table go through the same states.

## Implementation notes

A connection is lost with the first `Engine_close` after an `Engine_open`, so
what a client may call depends on which of the two it called last.
-/

namespace Libdce.Remote

open Foundation.Bytes Foundation.GuardedRuns Tracking Host

variable {σ κ : Type*}

/-- A client calls a function, or dies. -/
inductive Step where
  | call (p : Pid) (env : ClientEnv) (op : Operation)
  | obit (p : Pid)

namespace Operation

/-- The client's function of the same name, with the connection it leaves. -/
def run (rcm : Rcm σ) (env : ClientEnv) (c : Connection) (s : σ) :
    Operation → Return × Connection × σ
  | .engineOpen name ec => Host.engineOpen rcm env.setup name ec c s
  | .engineClose engine => Host.engineClose rcm env.teardown engine c s
  | .viddec3Create engine name params =>
      let (r, s) := Host.viddec3Create rcm env.mem env.ret engine name params c s
      (r, c, s)
  | .viddec3Control codec id dynParams status =>
      let (r, s) := Host.viddec3Control rcm env.mem env.ret codec id dynParams status c s
      (r, c, s)
  | .viddec3Process codec inBufs outBufs inArgs outArgs =>
      let (r, s) := Host.viddec3Process rcm env.mem env.ret codec inBufs outBufs inArgs outArgs c s
      (r, c, s)
  | .viddec3Delete codec =>
      let (r, s) := Host.viddec3Delete rcm codec c s
      (r, c, s)

/-- The connection that is left. -/
def leaves (env : ClientEnv) (c : Connection) : Operation → Connection
  | .engineOpen _ _ => init env.setup c
  | .engineClose _ => deinit env.teardown c
  | _ => c

theorem run_eq (rcm : Rcm σ) (env : ClientEnv) (c : Connection) (s : σ) (op : Operation) :
    op.run rcm env c s = ((op.stub rcm env c s).1, op.leaves env c, (op.stub rcm env c s).2) := by
  cases op with
  | engineOpen name ec =>
      simp only [run, stub, leaves, ← engineOpen_connection rcm c s env.setup name ec]
  | _ => rfl

/-- The client is connected after the call. -/
def connects (connected : Bool) : Operation → Bool
  | .engineOpen _ _ => true
  | .engineClose _ => false
  | _ => connected

/-- A client that is not connected opens an engine first, and the platform lets it. -/
def Ready (dispatch : Word → Option Fxn) (p : Pid) (connected : Bool) (env : ClientEnv) :
    Operation → Prop
  | .engineOpen _ _ => connected = true ∨ env.setup.Succeed ∧ env.setup.getpid = p ∧
      ∀ f i, env.setup.getSymbolIndex f = .ok i → dispatch i = some f
  | .engineClose _ => connected = true ∧ env.teardown.Succeed
  | _ => connected = true

end Operation

/-- The connections of the processes, what RCM and the server hold, and what the calls
have returned. -/
structure System (σ : Type*) where
  connections : Pid → Connection
  transport : σ
  returns : List (Pid × Return)

namespace System

/-- No process has called anything yet. -/
def start (t : σ) : System σ := ⟨fun _ => Connection.zero, t, []⟩

/-- A call goes through the stub. The next process with the pid of a dead one starts
anew. -/
def step (rcm : Rcm σ) (obit : Pid → σ → σ) (s : System σ) : Step → System σ
  | .call p env op =>
      let (r, c, t) := op.run rcm env (s.connections p) s.transport
      ⟨Function.update s.connections p c, t, s.returns ++ [(p, r)]⟩
  | .obit p =>
      ⟨Function.update s.connections p Connection.zero, obit p s.transport, s.returns⟩

end System

/-- Codec Engine and the table without anything between them and the clients. -/
structure LocalEngine (κ : Type*) where
  connected : Pid → Bool
  clients : Clients
  codecEngine : κ
  returns : List (Pid × Return)

namespace LocalEngine

def start (clients : Clients) (codecEngine : κ) : LocalEngine κ :=
  ⟨fun _ => false, clients, codecEngine, []⟩

/-- A call is a call of Codec Engine. When a client dies, what is recorded for it is
released. -/
def step (ce : CodecEngine κ) (s : LocalEngine κ) : Step → LocalEngine κ
  | .call p env op =>
      let req := op.request env.mem
      let (reply, codecEngine) := ce p req s.codecEngine
      { connected := Function.update s.connected p (op.connects (s.connected p))
        clients := (Server.serve ⟨s.clients, []⟩ (req.event p reply)).clients
        codecEngine := codecEngine
        returns := s.returns ++ [(p, op.returns reply)] }
  | .obit p =>
      let cleanup := Tracking.dceCleanupCb ⟨s.clients, []⟩ .procObit p
      { connected := Function.update s.connected p false
        clients := cleanup.clients
        codecEngine := releaseAll ce p cleanup.calls s.codecEngine
        returns := s.returns }

/-- The clients use the library as they should: names are short and no structure is null
(`Accepted`), and a process opens an engine first and after each close, which tears its
connection down; setting it up and tearing it down succeed (`Ready`). -/
def Legal (dispatch : Word → Option Fxn) (s : LocalEngine κ) : Step → Prop
  | .call p env op => op.Accepted ∧ op.Ready dispatch p (s.connected p) env
  | .obit _ => True

end LocalEngine

/-- The server's callback is called when a process dies. -/
def Notifies (obit : Pid → σ → σ) (service : σ → Service κ) (ce : CodecEngine κ) : Prop :=
  ∀ p s, ∃ args data env, service (obit p s) =
    (dceCleanupCb ce args .procObit p ⟨service s, data, env⟩).toService

section Refinement

variable {rcm : Rcm σ} {obit : Pid → σ → σ} {service : σ → Service κ} {ce : CodecEngine κ}
  {dispatch : Word → Option Fxn}

/-- The connection of a process, up or down. -/
def Carries (dispatch : Word → Option Fxn) (p : Pid) (connected : Bool) (c : Connection) : Prop :=
  if connected then Established dispatch c ∧ c.count = 1 ∧ c.pid = p else c.count = 0

/-- A connection that is set up by `Engine_open` might as well have been up before. -/
theorem stub_engineOpen_init (env : ClientEnv) (c : Connection) (s : σ) {op : Operation}
    (hc : (0 : Word).slt (op.leaves env c).count = true) (hopens : ∃ name ec, op = .engineOpen name ec) :
    op.stub rcm env c s = op.stub rcm env (op.leaves env c) s := by
  obtain ⟨name, ec, rfl⟩ := hopens
  have hinit : init env.setup (init env.setup c) = init env.setup c := init_of_pos hc
  simp only [Operation.stub, Operation.leaves, Host.engineOpen, hinit]

/-- What a call does on a connection that is up. -/
theorem stub_established (d : Delivers rcm service ce dispatch) {c : Connection}
    (hc : Established dispatch c) {op : Operation} (hop : op.Accepted) (env : ClientEnv) (s : σ) :
    let req := op.request env.mem
    let reply := (ce c.pid req (service s).codecEngine).1
    (op.stub rcm env c s).1 = op.returns reply ∧
      (service (op.stub rcm env c s).2).clients =
        (Server.serve ⟨(service s).clients, []⟩ (req.event c.pid reply)).clients ∧
      (service (op.stub rcm env c s).2).codecEngine = (ce c.pid req (service s).codecEngine).2 := by
  obtain ⟨data, s', hcall, hservice⟩ := d.remoteCall hc op.fxn op.size
    (Operation.get32_fill c.pid env.mem · op) (Operation.decode_fill c.pid env.mem · hop) s
  rw [stub_eq hc env op hcall, hservice]
  exact ⟨rfl, rfl, rfl⟩

/-- The connection that a call works on is up, and carries the pid of its process. -/
theorem Carries.established {p : Pid} {connected : Bool} {c : Connection} {env : ClientEnv}
    {op : Operation} (h : Carries dispatch p connected c) (hready : op.Ready dispatch p connected env) :
    ∃ c', Established dispatch c' ∧ c'.pid = p ∧
      ∀ (rcm : Rcm σ) s, op.stub rcm env c s = op.stub rcm env c' s := by
  cases connected with
  | true =>
      obtain ⟨hc, -, hpid⟩ := h
      exact ⟨c, hc, hpid, fun _ _ => rfl⟩
  | false =>
      have hcount : c.count = 0 := h
      cases op with
      | engineOpen name ec =>
          obtain ⟨hsetup, hpid, hidx⟩ := hready.resolve_left Bool.false_ne_true
          have hc := established_init hsetup hcount hidx
          refine ⟨init env.setup c, hc, ?_, fun rcm s => ?_⟩
          · obtain ⟨handle, idx, -, -, hinit⟩ := init_of_zero hsetup hcount
            rw [hinit]
            exact hpid
          · exact stub_engineOpen_init env c s hc.count ⟨name, ec, rfl⟩
      | engineClose engine => exact absurd hready.1 Bool.false_ne_true
      | _ => exact absurd hready Bool.false_ne_true

/-- The connection after a call. -/
theorem Carries.leaves {p : Pid} {connected : Bool} {c : Connection} {env : ClientEnv}
    {op : Operation} (h : Carries dispatch p connected c) (hready : op.Ready dispatch p connected env) :
    Carries dispatch p (op.connects connected) (op.leaves env c) := by
  cases op with
  | engineOpen name ec =>
      cases connected with
      | true =>
          have hinit : init env.setup c = c := init_of_pos h.1.count
          simp only [Operation.leaves, Operation.connects, hinit]
          exact h
      | false =>
          obtain ⟨hsetup, hpid, hidx⟩ := hready.resolve_left Bool.false_ne_true
          have hcount : c.count = 0 := h
          have hc := established_init hsetup hcount hidx
          obtain ⟨handle, idx, -, -, hinit⟩ := init_of_zero hsetup hcount
          refine ⟨hc, ?_, ?_⟩
          · simp only [Operation.leaves, hinit]
          · simp only [Operation.leaves, hinit, hpid]
  | engineClose engine =>
      obtain ⟨rfl, hteardown⟩ := hready
      obtain ⟨hc, hcount, -⟩ := h
      simp only [Operation.leaves, Operation.connects, deinit_of_one hteardown hcount hc.handle]
      rfl
  | _ => exact h

/-- What the two systems have in common. -/
structure Refines (service : σ → Service κ) (dispatch : Word → Option Fxn) (s : System σ)
    (t : LocalEngine κ) : Prop where
  connections : ∀ p, Carries dispatch p (t.connected p) (s.connections p)
  clients : (service s.transport).clients = t.clients
  codecEngine : (service s.transport).codecEngine = t.codecEngine
  returns : s.returns = t.returns

namespace Refines

variable {s : System σ} {t : LocalEngine κ}

theorem carries_update (h : Refines service dispatch s t) {p : Pid} {connected : Bool}
    {c : Connection} (hc : Carries dispatch p connected c) :
    ∀ q, Carries dispatch q (Function.update t.connected p connected q)
      (Function.update s.connections p c q) := by
  intro q
  by_cases hq : q = p
  · subst q
    rwa [Function.update_self, Function.update_self]
  · rw [Function.update_of_ne hq, Function.update_of_ne hq]
    exact h.connections q

theorem call (d : Delivers rcm service ce dispatch) (h : Refines service dispatch s t) {p : Pid}
    {env : ClientEnv} {op : Operation} (hop : op.Accepted)
    (hready : op.Ready dispatch p (t.connected p) env) :
    Refines service dispatch (s.step rcm obit (.call p env op)) (t.step ce (.call p env op)) := by
  obtain ⟨c, hc, hpid, hstub⟩ := (h.connections p).established (σ := σ) hready
  obtain ⟨hreturn, hclients, hcodecEngine⟩ := stub_established d hc hop env s.transport
  rw [← hstub, hpid, h.codecEngine] at hreturn hclients hcodecEngine
  rw [h.clients] at hclients
  simp only [System.step, Operation.run_eq, LocalEngine.step]
  refine ⟨?_, hclients, hcodecEngine, ?_⟩
  · exact h.carries_update ((h.connections p).leaves hready)
  · simp only [h.returns, hreturn]

theorem dies (n : Notifies obit service ce) (h : Refines service dispatch s t) (p : Pid) :
    Refines service dispatch (s.step rcm obit (.obit p)) (t.step ce (.obit p)) := by
  obtain ⟨args, data, env, hservice⟩ := n p s.transport
  have hmirrors : Mirrors ce _ (dceCleanupCb ce args .procObit p _) p _ :=
    dceCleanupCb_mirrors args (⟨service s.transport, data, env⟩ : Worker κ) .procObit p
  have hclients := hmirrors.clients
  have hcodecEngine := hmirrors.codecEngine
  simp only [h.clients, h.codecEngine] at hclients hcodecEngine
  refine ⟨?_, ?_, ?_, h.returns⟩
  · have hgone : Carries dispatch p false Connection.zero := rfl
    exact h.carries_update hgone
  · simp only [System.step, LocalEngine.step, hservice, hclients]
  · simp only [System.step, LocalEngine.step, hservice, hcodecEngine]

theorem step (d : Delivers rcm service ce dispatch) (n : Notifies obit service ce)
    (h : Refines service dispatch s t) {a : Step} (ha : t.Legal dispatch a) :
    Refines service dispatch (s.step rcm obit a) (t.step ce a) := by
  cases a with
  | call p env op => exact h.call d ha.1 ha.2
  | obit p => exact h.dies n p

theorem start (u : σ) : Refines service dispatch (System.start u)
    (LocalEngine.start (service u).clients (service u).codecEngine) :=
  ⟨fun _ => rfl, rfl, rfl, rfl⟩

end Refines

/-- Through stubs, messages, handlers and the cleanup callback, a run of any number of
client processes returns to each of their calls what it would have had they called Codec
Engine themselves, and leaves Codec Engine and the table in the same state. The processes
use the library as they should (`LocalEngine.Legal`); in particular none calls anything
between a close and its next open, even if it has another engine. -/
theorem remote_refines_local (d : Delivers rcm service ce dispatch)
    (n : Notifies obit service ce) (u : σ) {steps : List Step}
    (run : Run (LocalEngine.step ce) (LocalEngine.Legal dispatch)
      (LocalEngine.start (service u).clients (service u).codecEngine) steps) :
    let s := final (System.step rcm obit) (System.start u) steps
    let t := final (LocalEngine.step ce)
      (LocalEngine.start (service u).clients (service u).codecEngine) steps
    s.returns = t.returns ∧ (service s.transport).clients = t.clients ∧
      (service s.transport).codecEngine = t.codecEngine := by
  have hrefines := run.related (f := System.step rcm obit) (R := Refines service dispatch)
    (Refines.start u) fun s t a h ha => h.step d n ha
  exact ⟨hrefines.returns, hrefines.clients, hrefines.codecEngine⟩

end Refinement

/-- A Codec Engine that numbers what it hands out and keeps account of what is open. -/
def numbering : CodecEngine (Word × Finset CeCall) := fun _ req (n, opened) =>
  let grant (k : Kind) : CeReply × Word × Finset CeCall :=
    if n ≠ 0 ∧ ⟨k, n⟩ ∉ opened then (⟨n, 0⟩, n + 1, insert ⟨k, n⟩ opened) else (⟨0, 0⟩, n, opened)
  match req with
  | .engineOpen _ => grant .engine
  | .engineClose engine => (⟨0, 0⟩, n, opened.erase ⟨.engine, engine⟩)
  | .viddec3Create _ _ _ => grant .codec
  | .viddec3Control _ _ _ _ => (⟨0, 0⟩, n, opened)
  | .viddec3Process _ _ _ _ _ => (⟨0, 0⟩, n, opened)
  | .viddec3Delete codec => (⟨0, 0⟩, n, opened.erase ⟨.codec, codec⟩)

/-- The function indices that the server gave out in order. -/
def inOrder (i : Word) : Option Fxn := Fxn.all[i.toNat]?

/-- RCM that calls the handler on the spot, and a callback on the spot. -/
def onTheSpot : Rcm (Service (Word × Finset CeCall)) := loopback numbering inOrder ⟨0, fun _ => 0xff⟩

def buries (p : Pid) (s : Service (Word × Finset CeCall)) : Service (Word × Finset CeCall) :=
  (dceCleanupCb numbering (fun _ _ _ => 0xff) .procObit p ⟨s, fun _ => 0, 0⟩).toService

theorem onTheSpot_delivers : Delivers onTheSpot id numbering inOrder :=
  loopback_delivers numbering inOrder ⟨0, fun _ => 0xff⟩

theorem buries_notifies : Notifies buries id numbering := fun _ _ => ⟨_, _, _, rfl⟩

/-- A process whose set-up succeeds. -/
def process (p : Pid) : ClientEnv :=
  ⟨fun _ => 0x90, 0, ⟨0, p, .ok 1, fun f => .ok (BitVec.ofNat 32 (Fxn.all.idxOf f))⟩, ⟨0, 0⟩⟩

theorem process_ready (p : Pid) (connected : Bool) (name : CString) (ec : Bool) :
    (Operation.engineOpen name ec).Ready inOrder p connected (process p) := by
  refine Or.inr ⟨⟨rfl, ⟨1, by decide, rfl⟩, fun f => ⟨_, rfl⟩⟩, rfl, ?_⟩
  intro f i hi
  cases hi
  cases f <;> rfl

/-- Two processes open an engine each; the first creates a codec and dies, the second
closes its engine. -/
def twoProcesses : List Step :=
  [.call 7 (process 7) (.engineOpen .empty true), .call 8 (process 8) (.engineOpen .empty false),
    .call 7 (process 7) (.viddec3Create 1 .empty 4096), .obit 7,
    .call 8 (process 8) (.engineClose 2)]

theorem remote_refines_local_two :
    (final (System.step onTheSpot buries) (System.start ⟨Clients.zero, (1, ∅), []⟩)
        twoProcesses).returns =
      [(7, ⟨some 1, some 0⟩), (8, ⟨some 2, none⟩), (7, ⟨some 3, none⟩), (8, ⟨none, none⟩)] := by
  have run : Run (LocalEngine.step numbering) (LocalEngine.Legal inOrder)
      (LocalEngine.start Clients.zero (1, ∅)) twoProcesses :=
    ⟨⟨Nat.zero_le _, process_ready 7 false .empty true⟩,
      ⟨Nat.zero_le _, process_ready 8 false .empty false⟩,
      ⟨⟨Nat.zero_le _, by decide⟩, rfl⟩, trivial, ⟨trivial, rfl, rfl, rfl⟩, trivial⟩
  rw [(remote_refines_local onTheSpot_delivers buries_notifies
    (⟨Clients.zero, (1, ∅), []⟩ : Service (Word × Finset CeCall)) run).1]
  decide +kernel

end Libdce.Remote
