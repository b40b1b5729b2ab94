import Libdce.Foundation.Bytes
import Libdce.Host.Connection
import Libdce.Remote.Layout
import Libdce.Tracking.Isolation

/-!
# Server handlers

A handler works on the data of the message it was called with: it reads the
`in` structure, calls Codec Engine and stores the `out` structure over it. Codec
Engine is a parameter that may keep a state of its own; what else a handler does
is listed as its actions.

## Implementation notes

The handlers are written statement by statement, since the `out` structure
shares its bytes with the `in` structure. A name reaches Codec Engine as a
pointer into the message, so the string is read from there when the call is
made; `none` stands for an array without a NUL byte. Every handler returns zero.
-/

namespace Libdce.Remote

open Foundation.Bytes Tracking Host

/-- A call of a Codec Engine function. -/
inductive CeRequest where
  | engineOpen (name : Option CString)
  | engineClose (engine : Handle)
  | viddec3Create (engine : Handle) (name : Option CString) (params : Word)
  | viddec3Control (codec : Handle) (id dynParams status : Word)
  | viddec3Process (codec : Handle) (inBufs outBufs inArgs outArgs : Word)
  | viddec3Delete (codec : Handle)
  deriving DecidableEq

/-- The value a Codec Engine function returns, and the error of `Engine_open`. -/
structure CeReply where
  ret : Word
  ec : Word

/-- What Codec Engine does when it is called in the environment of a task. -/
abbrev CodecEngine (κ : Type*) := Word → CeRequest → κ → CeReply × κ

/-- What a handler does besides reading and storing. -/
inductive Action where
  | setEnv (env : Word)
  | invoke (env : Word) (req : CeRequest)
  | ivahdAcquire
  | ivahdRelease
  | clean (ptr : Word)
  | register (kind : Kind) (pid : Pid) (h : Handle)
  | unregister (kind : Kind) (pid : Pid) (h : Handle)
  deriving DecidableEq

/-- What outlives a request: the table, Codec Engine, and what was done so far. -/
structure Service (κ : Type*) where
  clients : Clients
  codecEngine : κ
  actions : List Action

/-- A worker task with the message it serves. -/
structure Worker (κ : Type*) extends Service κ where
  data : Buffer
  env : Word

namespace Worker

variable {κ : Type*} (s : Worker κ)

/-- An assignment to a field of the message. -/
def store (offset : Nat) (w : Word) : Worker κ := { s with data := s.data.put32 offset w }

/-- An action without an effect on the state modelled here. -/
def act (a : Action) : Worker κ := { s with actions := s.actions ++ [a] }

/-- `Task_setEnv(Task_self(), …)`. -/
def setEnv (env : Word) : Worker κ := { s.act (.setEnv env) with env := env }

/-- A call into Codec Engine, in the present environment of the task. -/
def invoke (ce : CodecEngine κ) (req : CeRequest) : CeReply × Worker κ :=
  ((ce s.env req s.codecEngine).1,
    { s.act (.invoke s.env req) with codecEngine := (ce s.env req s.codecEngine).2 })

/-- `dce_clean`. -/
def clean (ptr : Word) : Worker κ := s.act (.clean ptr)

/-- `dce_register_engine` and `dce_register_codec`. -/
def register (k : Kind) (pid : Pid) (h : Handle) : Worker κ :=
  { s.act (.register k pid h) with
    clients := match k with
      | .engine => dceRegisterEngine s.clients pid h
      | .codec => dceRegisterCodec s.clients pid h }

/-- `dce_unregister_engine` and `dce_unregister_codec`. -/
def unregister (k : Kind) (pid : Pid) (h : Handle) : Worker κ :=
  { s.act (.unregister k pid h) with clients := dceUnregister k s.clients pid h }

end Worker

section Handlers

variable {κ : Type*} (ce : CodecEngine κ) (s : Worker κ)

/-- `rpc_Engine_open`. -/
def rpcEngineOpen : Worker κ :=
  let pid := s.data.get32 EngineOpenArgs.inPid
  let s := s.setEnv (s.data.get32 EngineOpenArgs.inPid)
  let (reply, s) := s.invoke ce (.engineOpen (s.data.string EngineOpenArgs.inName nameDim))
  let s := s.store EngineOpenArgs.outEngine reply.ret
  let s := s.store EngineOpenArgs.outEc reply.ec
  if s.data.get32 EngineOpenArgs.outEngine ≠ 0 then
    s.register .engine pid (s.data.get32 EngineOpenArgs.outEngine)
  else s

/-- `rpc_Engine_close`. -/
def rpcEngineClose : Worker κ :=
  let s := s.unregister .engine (s.data.get32 EngineCloseArgs.inPid)
    (s.data.get32 EngineCloseArgs.inEngine)
  let s := s.setEnv (s.data.get32 EngineCloseArgs.inPid)
  (s.invoke ce (.engineClose (s.data.get32 EngineCloseArgs.inEngine))).2

/-- `rpc_VIDDEC3_create`. -/
def rpcViddec3Create : Worker κ :=
  let params := s.data.get32 Viddec3CreateArgs.inParams
  let pid := s.data.get32 Viddec3CreateArgs.inPid
  let s := s.setEnv (s.data.get32 Viddec3CreateArgs.inPid)
  let (reply, s) := s.invoke ce (.viddec3Create (s.data.get32 Viddec3CreateArgs.inEngine)
    (s.data.string Viddec3CreateArgs.inName nameDim) params)
  let s := s.store Viddec3CreateArgs.outCodec reply.ret
  let s := s.clean params
  if s.data.get32 Viddec3CreateArgs.outCodec ≠ 0 then
    s.register .codec pid (s.data.get32 Viddec3CreateArgs.outCodec)
  else s

/-- `rpc_VIDDEC3_control`. -/
def rpcViddec3Control : Worker κ :=
  let dynParams := s.data.get32 Viddec3ControlArgs.inDynParams
  let status := s.data.get32 Viddec3ControlArgs.inStatus
  let s := s.setEnv (s.data.get32 Viddec3ControlArgs.inPid)
  let (reply, s) := s.invoke ce (.viddec3Control (s.data.get32 Viddec3ControlArgs.inCodec)
    (s.data.get32 Viddec3ControlArgs.inId) dynParams status)
  let s := s.store Viddec3ControlArgs.outRet reply.ret
  let s := s.clean dynParams
  s.clean status

/-- `rpc_VIDDEC3_process`. -/
def rpcViddec3Process : Worker κ :=
  let inBufs := s.data.get32 Viddec3ProcessArgs.inInBufs
  let outBufs := s.data.get32 Viddec3ProcessArgs.inOutBufs
  let inArgs := s.data.get32 Viddec3ProcessArgs.inInArgs
  let outArgs := s.data.get32 Viddec3ProcessArgs.inOutArgs
  let s := s.setEnv (s.data.get32 Viddec3ProcessArgs.inPid)
  let s := s.act .ivahdAcquire
  let (reply, s) := s.invoke ce (.viddec3Process (s.data.get32 Viddec3ProcessArgs.inCodec)
    inBufs outBufs inArgs outArgs)
  let s := s.store Viddec3ProcessArgs.outRet reply.ret
  let s := s.act .ivahdRelease
  let s := s.clean inBufs
  let s := s.clean outBufs
  let s := s.clean inArgs
  s.clean outArgs

/-- `rpc_VIDDEC3_delete`. -/
def rpcViddec3Delete : Worker κ :=
  let s := s.unregister .codec (s.data.get32 Viddec3DeleteArgs.inPid)
    (s.data.get32 Viddec3DeleteArgs.inCodec)
  let s := s.setEnv (s.data.get32 Viddec3DeleteArgs.inPid)
  (s.invoke ce (.viddec3Delete (s.data.get32 Viddec3DeleteArgs.inCodec))).2

/-- The functions that `dce_init` registers with the RCM server. -/
def rpc : Fxn → Worker κ
  | .engineOpen => rpcEngineOpen ce s
  | .engineClose => rpcEngineClose ce s
  | .viddec3Create => rpcViddec3Create ce s
  | .viddec3Control => rpcViddec3Control ce s
  | .viddec3Process => rpcViddec3Process ce s
  | .viddec3Delete => rpcViddec3Delete ce s

end Handlers

/-- The call that a message asks for. -/
def decode (data : Buffer) : Fxn → CeRequest
  | .engineOpen => .engineOpen (data.string EngineOpenArgs.inName nameDim)
  | .engineClose => .engineClose (data.get32 EngineCloseArgs.inEngine)
  | .viddec3Create => .viddec3Create (data.get32 Viddec3CreateArgs.inEngine)
      (data.string Viddec3CreateArgs.inName nameDim) (data.get32 Viddec3CreateArgs.inParams)
  | .viddec3Control => .viddec3Control (data.get32 Viddec3ControlArgs.inCodec)
      (data.get32 Viddec3ControlArgs.inId) (data.get32 Viddec3ControlArgs.inDynParams)
      (data.get32 Viddec3ControlArgs.inStatus)
  | .viddec3Process => .viddec3Process (data.get32 Viddec3ProcessArgs.inCodec)
      (data.get32 Viddec3ProcessArgs.inInBufs) (data.get32 Viddec3ProcessArgs.inOutBufs)
      (data.get32 Viddec3ProcessArgs.inInArgs) (data.get32 Viddec3ProcessArgs.inOutArgs)
  | .viddec3Delete => .viddec3Delete (data.get32 Viddec3DeleteArgs.inCodec)

namespace CeRequest

/-- The `out` structure for a reply. -/
def encode (reply : CeReply) (data : Buffer) : CeRequest → Buffer
  | .engineOpen _ =>
      (data.put32 EngineOpenArgs.outEngine reply.ret).put32 EngineOpenArgs.outEc reply.ec
  | .engineClose _ => data
  | .viddec3Create _ _ _ => data.put32 Viddec3CreateArgs.outCodec reply.ret
  | .viddec3Control _ _ _ _ => data.put32 Viddec3ControlArgs.outRet reply.ret
  | .viddec3Process _ _ _ _ _ => data.put32 Viddec3ProcessArgs.outRet reply.ret
  | .viddec3Delete _ => data

/-- The structures that a call passes and that have to be cleaned after it. -/
def structures : CeRequest → List Word
  | .viddec3Create _ _ params => [params]
  | .viddec3Control _ _ dynParams status => [dynParams, status]
  | .viddec3Process _ inBufs outBufs inArgs outArgs => [inBufs, outBufs, inArgs, outArgs]
  | _ => []

/-- The tracking event of a call that got the reply. -/
def event (pid : Pid) (reply : CeReply) : CeRequest → Event
  | .engineOpen _ => .engineOpen pid reply.ret
  | .engineClose engine => .engineClose pid engine
  | .viddec3Create engine _ _ => .viddec3Create pid engine reply.ret
  | .viddec3Control codec _ _ _ => .viddec3Control pid codec
  | .viddec3Process codec _ _ _ _ => .viddec3Process pid codec
  | .viddec3Delete codec => .viddec3Delete pid codec

/-- A handle is registered unless it is null. -/
def registration (k : Kind) (pid : Pid) (h : Handle) : List Action :=
  if h ≠ 0 then [.register k pid h] else []

/-- Everything the handler of a call does, in order. -/
def actions (pid : Pid) (reply : CeReply) (req : CeRequest) : List Action :=
  match req with
  | .engineOpen _ => [.setEnv pid, .invoke pid req] ++ registration .engine pid reply.ret
  | .engineClose engine => [.unregister .engine pid engine, .setEnv pid, .invoke pid req]
  | .viddec3Create _ _ params =>
      [.setEnv pid, .invoke pid req, .clean params] ++ registration .codec pid reply.ret
  | .viddec3Control _ _ dynParams status =>
      [.setEnv pid, .invoke pid req, .clean dynParams, .clean status]
  | .viddec3Process _ inBufs outBufs inArgs outArgs =>
      [.setEnv pid, .ivahdAcquire, .invoke pid req, .ivahdRelease,
        .clean inBufs, .clean outBufs, .clean inArgs, .clean outArgs]
  | .viddec3Delete codec => [.unregister .codec pid codec, .setEnv pid, .invoke pid req]

/-- The arguments of `dce_clean` in a list of actions. -/
def cleans (todo : List Action) : List Word :=
  todo.filterMap fun
    | .clean ptr => some ptr
    | _ => none

/-- Handlers clean the structures of their call, in order and nothing else. -/
theorem cleans_actions (pid : Pid) (reply : CeReply) (req : CeRequest) :
    cleans (req.actions pid reply) = req.structures := by
  cases req <;> simp [cleans, actions, structures, registration]

/-- While the call into Codec Engine is still to come nothing has been cleaned. -/
theorem cleans_of_invoke_first {pid : Pid} {reply : CeReply} {req req' : CeRequest} {env : Word}
    {todo : List Action} (h : .invoke env req' :: todo <:+ req.actions pid reply) :
    cleans todo = req.structures := by
  have hregistration : ∀ k pid h, .invoke env req' ∉ registration k pid h := by
    intro k pid h
    unfold registration
    split <;> simp
  cases req <;>
    simp only [actions, List.cons_append, List.nil_append, List.suffix_cons_iff, List.cons.injEq,
      reduceCtorEq, false_and, false_or] at h
  all_goals
    rcases h with ⟨_, rfl⟩ | h
    · simp [cleans, structures, registration]
    · exact absurd (h.mem List.mem_cons_self) (by simp [hregistration])

end CeRequest

section Spec

variable {κ : Type*} (ce : CodecEngine κ) (s : Worker κ)

/-- All six unions begin with the pid. -/
def inPid : Nat := 0

/-- The conditional registration at the end of an opening handler. -/
theorem Worker.register_unless_null (k : Kind) (pid : Pid) (h : Handle) :
    (if h ≠ 0 then s.register k pid h else s) =
      { s with
        clients := match k with
          | .engine => (Tracking.rpcEngineOpen ⟨s.clients, []⟩ pid h).clients
          | .codec => (Tracking.rpcViddec3Create ⟨s.clients, []⟩ pid h).clients
        actions := s.actions ++ CeRequest.registration k pid h } := by
  by_cases hh : h = 0
  · cases k <;>
      simp only [hh, Tracking.rpcEngineOpen, Tracking.rpcViddec3Create, CeRequest.registration,
        ne_eq, not_true_eq_false, if_false, List.append_nil]
  · cases k <;>
      simp only [hh, Tracking.rpcEngineOpen, Tracking.rpcViddec3Create, CeRequest.registration,
        ne_eq, not_false_eq_true, if_true, Worker.register, Worker.act]

/-- What a handler does is determined by the message as it arrived: nothing is
read after its bytes were overwritten. -/
theorem rpc_eq (fxn : Fxn) :
    let pid := s.data.get32 inPid
    let req := decode s.data fxn
    let reply := (ce pid req s.codecEngine).1
    rpc ce s fxn =
      { data := req.encode reply s.data
        env := pid
        clients := (Server.serve ⟨s.clients, []⟩ (req.event pid reply)).clients
        codecEngine := (ce pid req s.codecEngine).2
        actions := s.actions ++ req.actions pid reply } := by
  cases fxn with
  | engineOpen =>
      -- the error is stored over the pid and leaves the engine behind it alone
      have hread : ∀ reply : CeReply,
          ((s.data.put32 EngineOpenArgs.outEngine reply.ret).put32 EngineOpenArgs.outEc
            reply.ec).get32 EngineOpenArgs.outEngine = reply.ret := by
        intro reply
        rw [Buffer.get32_put32_of_apart _ (by decide), Buffer.get32_put32]
      simp only [rpc, rpcEngineOpen, Worker.setEnv, Worker.act, Worker.invoke, Worker.store, hread,
        Worker.register_unless_null, CeRequest.actions, decode, List.append_assoc]
      rfl
  | engineClose =>
      simp only [rpc, rpcEngineClose, Worker.unregister, Worker.setEnv, Worker.act, Worker.invoke,
        CeRequest.actions, decode, List.append_assoc]
      rfl
  | viddec3Create =>
      simp only [rpc, rpcViddec3Create, Worker.setEnv, Worker.act, Worker.invoke, Worker.store,
        Worker.clean, Buffer.get32_put32, Worker.register_unless_null, CeRequest.actions, decode,
        List.append_assoc]
      rfl
  | viddec3Control =>
      simp only [rpc, rpcViddec3Control, Worker.setEnv, Worker.act, Worker.invoke, Worker.store,
        Worker.clean, CeRequest.actions, decode, List.append_assoc]
      rfl
  | viddec3Process =>
      simp only [rpc, rpcViddec3Process, Worker.setEnv, Worker.act, Worker.invoke, Worker.store,
        Worker.clean, CeRequest.actions, decode, List.append_assoc]
      rfl
  | viddec3Delete =>
      simp only [rpc, rpcViddec3Delete, Worker.unregister, Worker.setEnv, Worker.act,
        Worker.invoke, CeRequest.actions, decode, List.append_assoc]
      rfl

/-- The release calls of the tracking model are the close and delete calls of
the handlers. -/
theorem calls_event (t : Clients) (pid : Pid) (reply : CeReply) (req : CeRequest) :
    (Server.serve ⟨t, []⟩ (req.event pid reply)).calls =
      (req.actions pid reply).filterMap fun
        | .invoke _ (.engineClose engine) => some ⟨.engine, engine⟩
        | .invoke _ (.viddec3Delete codec) => some ⟨.codec, codec⟩
        | _ => none := by
  cases req with
  | engineOpen name =>
      simp only [CeRequest.event, CeRequest.actions, CeRequest.registration, Server.serve,
        Tracking.rpcEngineOpen]
      split <;> rfl
  | viddec3Create engine name params =>
      simp only [CeRequest.event, CeRequest.actions, CeRequest.registration, Server.serve,
        Tracking.rpcViddec3Create]
      split <;> rfl
  | engineClose engine => rfl
  | viddec3Control codec id dynParams status => rfl
  | viddec3Process codec inBufs outBufs inArgs outArgs => rfl
  | viddec3Delete codec => rfl

end Spec

end Libdce.Remote
