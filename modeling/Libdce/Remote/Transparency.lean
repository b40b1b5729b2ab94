import Libdce.Host.Stubs
import Libdce.Remote.Handlers

/-!
# A remote call acts like a local one

The stub, the message and the handler of an operation are put together: on an
established connection, calling the stub makes the one Codec Engine call that
the caller asked for, with the coprocessor's addresses in place of the client's
pointers, and hands its result back.

## Implementation notes

RCM belongs to neither side. What the stubs and handlers rely on is stated as
`Delivers`: a message is allocated with arbitrary contents, its data is given to
the handler registered under its function index, and the data that the handler
leaves comes back.
-/

namespace Libdce.Remote

open Foundation.Bytes Tracking Host

/-- A call of one of the six functions by a client. -/
inductive Operation where
  | engineOpen (name : CString) (ec : Bool)
  | engineClose (engine : Handle)
  | viddec3Create (engine : Handle) (name : CString) (params : Word)
  | viddec3Control (codec : Handle) (id dynParams status : Word)
  | viddec3Process (codec : Handle) (inBufs outBufs inArgs outArgs : Word)
  | viddec3Delete (codec : Handle)

/-- What a stub finds in its process: the memory, what an uninitialised variable
holds, and what the platform answers to `init` and `deinit`. -/
structure ClientEnv where
  mem : Buffer
  ret : Word
  setup : SetupAnswers
  teardown : TeardownAnswers

/-- The address that the header of a block gives for the coprocessor. -/
def ducatiAddr (mem : Buffer) (ptr : Word) : Word := (memHeader mem (p2h ptr)).ducatiAddr

/-- The connection is in use, and the server knows each function index as the
function it was looked up for. -/
structure Established (dispatch : Word → Option Fxn) (c : Connection) : Prop where
  count : (0 : Word).slt c.count = true
  handle : c.handle ≠ 0
  idx : ∀ f, dispatch (c.idx f) = some f

/-- RCM carries a message to its handler and back. -/
structure Delivers {σ κ : Type*} (rcm : Rcm σ) (service : σ → Service κ) (ce : CodecEngine κ)
    (dispatch : Word → Option Fxn) : Prop where
  alloc : ∀ handle size s, handle ≠ 0 →
    ∃ msg s', rcm.alloc handle size s = (.ok msg, s') ∧ service s' = service s
  exec : ∀ handle (msg : Message) s fxn, handle ≠ 0 → dispatch msg.fxnIdx = some fxn →
    ∃ env reply s', rcm.exec handle msg s = (.ok (), reply, s') ∧
      reply.data = (rpc ce ⟨service s, msg.data, env⟩ fxn).data ∧
      service s' = (rpc ce ⟨service s, msg.data, env⟩ fxn).toService
  free : ∀ handle msg s, service (rcm.free handle msg s) = service s

/-- A successful first `init` establishes the connection. -/
theorem established_init {dispatch : Word → Option Fxn} {answers : SetupAnswers} {c : Connection}
    (ha : answers.Succeed) (hcount : c.count = 0)
    (hidx : ∀ f i, answers.getSymbolIndex f = .ok i → dispatch i = some f) :
    Established dispatch (init answers c) := by
  obtain ⟨handle, idx, hne, hok, hinit⟩ := init_of_zero ha hcount
  rw [hinit]
  exact ⟨rfl, hne, fun f => hidx f _ (hok f)⟩

namespace Operation

/-- The client's function of the same name. -/
def stub {σ : Type*} (rcm : Rcm σ) (env : ClientEnv) (c : Connection) (s : σ) :
    Operation → Return × σ
  | .engineOpen name ec =>
      let (r, _, s) := Host.engineOpen rcm env.setup name ec c s
      (r, s)
  | .engineClose engine =>
      let (r, _, s) := Host.engineClose rcm env.teardown engine c s
      (r, s)
  | .viddec3Create engine name params =>
      Host.viddec3Create rcm env.mem env.ret engine name params c s
  | .viddec3Control codec id dynParams status =>
      Host.viddec3Control rcm env.mem env.ret codec id dynParams status c s
  | .viddec3Process codec inBufs outBufs inArgs outArgs =>
      Host.viddec3Process rcm env.mem env.ret codec inBufs outBufs inArgs outArgs c s
  | .viddec3Delete codec => Host.viddec3Delete rcm codec c s

/-- The function the stub calls. -/
def fxn : Operation → Fxn
  | .engineOpen _ _ => .engineOpen
  | .engineClose _ => .engineClose
  | .viddec3Create _ _ _ => .viddec3Create
  | .viddec3Control _ _ _ _ => .viddec3Control
  | .viddec3Process _ _ _ _ _ => .viddec3Process
  | .viddec3Delete _ => .viddec3Delete

/-- The size of the message that the stub allocates. -/
def size : Operation → Nat
  | .engineOpen _ _ => EngineOpenArgs.size
  | .engineClose _ => EngineCloseArgs.size
  | .viddec3Create _ _ _ => Viddec3CreateArgs.size
  | .viddec3Control _ _ _ _ => Viddec3ControlArgs.size
  | .viddec3Process _ _ _ _ _ => Viddec3ProcessArgs.size
  | .viddec3Delete _ => Viddec3DeleteArgs.size

/-- The message as the stub fills it in. -/
def fill (pid : Pid) (mem data : Buffer) : Operation → Buffer
  | .engineOpen name _ => fillEngineOpen pid data name
  | .engineClose engine => fillEngineClose pid data engine
  | .viddec3Create engine name params => fillViddec3Create pid mem data engine name params
  | .viddec3Control codec id dynParams status =>
      fillViddec3Control pid mem data codec id dynParams status
  | .viddec3Process codec inBufs outBufs inArgs outArgs =>
      fillViddec3Process pid mem data codec inBufs outBufs inArgs outArgs
  | .viddec3Delete codec => fillViddec3Delete pid data codec

/-- Names have at most 23 characters, and structures are blocks of `dce_alloc`. -/
def Accepted : Operation → Prop
  | .engineOpen name _ => name.chars.length ≤ 23
  | .viddec3Create _ name params => name.chars.length ≤ 23 ∧ params ≠ 0
  | .viddec3Control _ _ dynParams status => dynParams ≠ 0 ∧ status ≠ 0
  | .viddec3Process _ inBufs outBufs inArgs outArgs =>
      inBufs ≠ 0 ∧ outBufs ≠ 0 ∧ inArgs ≠ 0 ∧ outArgs ≠ 0
  | _ => True

/-- The call that the caller means, on the coprocessor. -/
def request (mem : Buffer) : Operation → CeRequest
  | .engineOpen name _ => .engineOpen (some name)
  | .engineClose engine => .engineClose engine
  | .viddec3Create engine name params =>
      .viddec3Create engine (some name) (ducatiAddr mem params)
  | .viddec3Control codec id dynParams status =>
      .viddec3Control codec id (ducatiAddr mem dynParams) (ducatiAddr mem status)
  | .viddec3Process codec inBufs outBufs inArgs outArgs =>
      .viddec3Process codec (ducatiAddr mem inBufs) (ducatiAddr mem outBufs)
        (ducatiAddr mem inArgs) (ducatiAddr mem outArgs)
  | .viddec3Delete codec => .viddec3Delete codec

/-- What the caller should get when Codec Engine gives the reply. -/
def returns (reply : CeReply) : Operation → Return
  | .engineOpen _ ec => ⟨some reply.ret, if ec then some reply.ec else none⟩
  | .engineClose _ => ⟨none, none⟩
  | .viddec3Create _ _ _ => ⟨some reply.ret, none⟩
  | .viddec3Control _ _ _ _ => ⟨some reply.ret, none⟩
  | .viddec3Process _ _ _ _ _ => ⟨some reply.ret, none⟩
  | .viddec3Delete _ => ⟨none, none⟩

/-- How the tracking should be told: a handle returned, unless null, is
registered, and a handle given back is unregistered. -/
def tracking (pid : Pid) (reply : CeReply) : Operation → List Action
  | .engineOpen _ _ => if reply.ret = 0 then [] else [.register .engine pid reply.ret]
  | .engineClose engine => [.unregister .engine pid engine]
  | .viddec3Create _ _ _ => if reply.ret = 0 then [] else [.register .codec pid reply.ret]
  | .viddec3Delete codec => [.unregister .codec pid codec]
  | _ => []

/-- The pid stays in front of everything that is filled in after it. -/
theorem get32_fill (pid : Pid) (mem data : Buffer) (op : Operation) :
    (op.fill pid mem data).get32 inPid = pid := by
  cases op with
  | engineOpen name ec =>
      show (fillEngineOpen pid data name).get32 EngineOpenArgs.inPid = pid
      simp (disch := decide) only [fillEngineOpen, Buffer.get32_strncpy_of_apart,
        Buffer.get32_put32]
  | engineClose engine =>
      show (fillEngineClose pid data engine).get32 EngineCloseArgs.inPid = pid
      simp (disch := decide) only [fillEngineClose, Buffer.get32_put32_of_apart,
        Buffer.get32_put32]
  | viddec3Create engine name params =>
      show (fillViddec3Create pid mem data engine name params).get32 Viddec3CreateArgs.inPid = pid
      simp (disch := decide) only [fillViddec3Create, Buffer.get32_strncpy_of_apart,
        Buffer.get32_put32_of_apart, Buffer.get32_put32]
  | viddec3Control codec id dynParams status =>
      show (fillViddec3Control pid mem data codec id dynParams status).get32
        Viddec3ControlArgs.inPid = pid
      simp (disch := decide) only [fillViddec3Control, Buffer.get32_put32_of_apart,
        Buffer.get32_put32]
  | viddec3Process codec inBufs outBufs inArgs outArgs =>
      show (fillViddec3Process pid mem data codec inBufs outBufs inArgs outArgs).get32
        Viddec3ProcessArgs.inPid = pid
      simp (disch := decide) only [fillViddec3Process, Buffer.get32_put32_of_apart,
        Buffer.get32_put32]
  | viddec3Delete codec =>
      show (fillViddec3Delete pid data codec).get32 Viddec3DeleteArgs.inPid = pid
      simp (disch := decide) only [fillViddec3Delete, Buffer.get32_put32_of_apart,
        Buffer.get32_put32]

/-- The handler reads what the stub was given, whatever the message contained. -/
theorem decode_fill (pid : Pid) (mem data : Buffer) {op : Operation} (hop : op.Accepted) :
    decode (op.fill pid mem data) op.fxn = op.request mem := by
  cases op with
  | engineOpen name ec =>
      have hlen : name.chars.length < nameDim - 1 := Nat.lt_succ_of_le hop
      simp only [fill, fxn, decode, request, fillEngineOpen,
        Buffer.string_strncpy name hlen (by decide : nameDim - 1 ≤ nameDim)]
  | engineClose engine =>
      simp only [fill, fxn, decode, request, fillEngineClose, Buffer.get32_put32]
  | viddec3Create engine name params =>
      have hlen : name.chars.length < nameDim - 1 := Nat.lt_succ_of_le hop.1
      simp (disch := decide) only [fill, fxn, decode, request, fillViddec3Create, ducatiAddr,
        virt2ducati_of_ne_zero _ hop.2, Buffer.string_put32_of_apart,
        Buffer.string_strncpy name hlen (by decide : nameDim - 1 ≤ nameDim),
        Buffer.get32_put32_of_apart, Buffer.get32_strncpy_of_apart, Buffer.get32_put32]
  | viddec3Control codec id dynParams status =>
      obtain ⟨hdynParams, hstatus⟩ := hop
      simp (disch := decide) only [fill, fxn, decode, request, fillViddec3Control, ducatiAddr,
        virt2ducati_of_ne_zero _ hdynParams, virt2ducati_of_ne_zero _ hstatus,
        Buffer.get32_put32_of_apart, Buffer.get32_put32]
  | viddec3Process codec inBufs outBufs inArgs outArgs =>
      obtain ⟨hinBufs, houtBufs, hinArgs, houtArgs⟩ := hop
      simp (disch := decide) only [fill, fxn, decode, request, fillViddec3Process, ducatiAddr,
        virt2ducati_of_ne_zero _ hinBufs, virt2ducati_of_ne_zero _ houtBufs,
        virt2ducati_of_ne_zero _ hinArgs, virt2ducati_of_ne_zero _ houtArgs,
        Buffer.get32_put32_of_apart, Buffer.get32_put32]
  | viddec3Delete codec =>
      simp only [fill, fxn, decode, request, fillViddec3Delete, Buffer.get32_put32]

end Operation

/-- The Codec Engine calls among the actions, each with the environment it was
made in. -/
def invocations (actions : List Action) : List (Word × CeRequest) :=
  actions.filterMap fun
    | .invoke env req => some (env, req)
    | _ => none

/-- The tracking calls among the actions. -/
def trackings (actions : List Action) : List Action :=
  actions.filter fun
    | .register _ _ _ => true
    | .unregister _ _ _ => true
    | _ => false

section Delivery

variable {σ κ : Type*} {rcm : Rcm σ} {service : σ → Service κ} {ce : CodecEngine κ}
  {dispatch : Word → Option Fxn} {c : Connection}

/-- A call whose message is decoded as intended, whatever was in it before, is
served as intended. -/
theorem Delivers.remoteCall (d : Delivers rcm service ce dispatch) (hc : Established dispatch c)
    (fxn : Fxn) (size : Nat) {fill : Buffer → Buffer} {pid : Pid} {req : CeRequest}
    (hpid : ∀ data, (fill data).get32 inPid = pid) (hreq : ∀ data, decode (fill data) fxn = req)
    (s : σ) :
    ∃ data s', Host.remoteCall rcm c fxn size fill s =
        (.ok (req.encode (ce pid req (service s).codecEngine).1 data), s') ∧
      service s' =
        { clients := (Server.serve ⟨(service s).clients, []⟩
            (req.event pid (ce pid req (service s).codecEngine).1)).clients
          codecEngine := (ce pid req (service s).codecEngine).2
          actions := (service s).actions ++
            req.actions pid (ce pid req (service s).codecEngine).1 } := by
  obtain ⟨msg, s₁, halloc, hservice⟩ := d.alloc c.handle size s hc.handle
  obtain ⟨env, reply, s₂, hexec, hdata, hserved⟩ :=
    d.exec c.handle ⟨c.idx fxn, fill msg.data⟩ s₁ fxn hc.handle (hc.idx fxn)
  have hrpc := rpc_eq ce ⟨service s₁, fill msg.data, env⟩ fxn
  simp only [hpid, hreq, hservice] at hrpc
  rw [hservice, hrpc] at hdata hserved
  refine ⟨fill msg.data, rcm.free c.handle reply s₂, ?_, ?_⟩
  · simp only [Host.remoteCall, halloc, hexec, hdata]
  · rw [d.free, hserved]

theorem invocations_actions (pid : Pid) (reply : CeReply) (req : CeRequest) :
    invocations (req.actions pid reply) = [(pid, req)] := by
  cases req <;> simp [invocations, CeRequest.actions, CeRequest.registration]

theorem trackings_actions (mem : Buffer) (pid : Pid) (reply : CeReply) (op : Operation) :
    trackings ((op.request mem).actions pid reply) = op.tracking pid reply := by
  cases op with
  | engineOpen name ec =>
      by_cases h : reply.ret = 0 <;>
        simp [trackings, CeRequest.actions, CeRequest.registration, Operation.request,
          Operation.tracking, h]
  | viddec3Create engine name params =>
      by_cases h : reply.ret = 0 <;>
        simp [trackings, CeRequest.actions, CeRequest.registration, Operation.request,
          Operation.tracking, h]
  | engineClose engine => rfl
  | viddec3Control codec id dynParams status => rfl
  | viddec3Process codec inBufs outBufs inArgs outArgs => rfl
  | viddec3Delete codec => rfl

/-- A stub whose remote call succeeds gives back what the `out` structure holds. -/
theorem stub_eq (hc : Established dispatch c) (env : ClientEnv) (op : Operation)
    {reply : CeReply} {data : Buffer} {s s' : σ}
    (h : Host.remoteCall rcm c op.fxn op.size (fun data => op.fill c.pid env.mem data) s =
      (.ok ((op.request env.mem).encode reply data), s')) :
    op.stub rcm env c s = (op.returns reply, s') := by
  cases op with
  | engineOpen name ec =>
      have hcall : Host.remoteCall rcm c .engineOpen EngineOpenArgs.size
          (fun data => fillEngineOpen c.pid data name) s =
          (.ok ((data.put32 EngineOpenArgs.outEngine reply.ret).put32 EngineOpenArgs.outEc
            reply.ec), s') := h
      simp (disch := decide) only [Operation.stub, Host.engineOpen, init_of_pos hc.count, hcall,
        Buffer.get32_put32_of_apart, Buffer.get32_put32, Operation.returns]
  | engineClose engine =>
      have hcall : Host.remoteCall rcm c .engineClose EngineCloseArgs.size
          (fun data => fillEngineClose c.pid data engine) s = (.ok data, s') := h
      simp only [Operation.stub, Host.engineClose, hcall, Operation.returns]
  | viddec3Create engine name params =>
      have hcall : Host.remoteCall rcm c .viddec3Create Viddec3CreateArgs.size
          (fun data => fillViddec3Create c.pid env.mem data engine name params) s =
          (.ok (data.put32 Viddec3CreateArgs.outCodec reply.ret), s') := h
      simp only [Operation.stub, Host.viddec3Create, hcall, Buffer.get32_put32, Operation.returns]
  | viddec3Control codec id dynParams status =>
      have hcall : Host.remoteCall rcm c .viddec3Control Viddec3ControlArgs.size
          (fun data => fillViddec3Control c.pid env.mem data codec id dynParams status) s =
          (.ok (data.put32 Viddec3ControlArgs.outRet reply.ret), s') := h
      simp only [Operation.stub, Host.viddec3Control, hcall, Buffer.get32_put32,
        Operation.returns]
  | viddec3Process codec inBufs outBufs inArgs outArgs =>
      have hcall : Host.remoteCall rcm c .viddec3Process Viddec3ProcessArgs.size
          (fun data => fillViddec3Process c.pid env.mem data codec inBufs outBufs inArgs outArgs)
          s = (.ok (data.put32 Viddec3ProcessArgs.outRet reply.ret), s') := h
      simp only [Operation.stub, Host.viddec3Process, hcall, Buffer.get32_put32,
        Operation.returns]
  | viddec3Delete codec =>
      have hcall : Host.remoteCall rcm c .viddec3Delete Viddec3DeleteArgs.size
          (fun data => fillViddec3Delete c.pid data codec) s = (.ok data, s') := h
      simp only [Operation.stub, Host.viddec3Delete, hcall, Operation.returns]

/-- A remote call is transparent: Codec Engine is called once, for the caller and
with what the caller passed; the tracking is told about the caller's handle; and
the caller gets the result of Codec Engine. -/
theorem remote_call_transparent (d : Delivers rcm service ce dispatch)
    (hc : Established dispatch c) {op : Operation} (hop : op.Accepted) (env : ClientEnv) (s : σ) :
    let req := op.request env.mem
    let reply := (ce c.pid req (service s).codecEngine).1
    let out := op.stub rcm env c s
    out.1 = op.returns reply ∧
      invocations (service out.2).actions =
        invocations (service s).actions ++ [(c.pid, req)] ∧
      (service out.2).codecEngine = (ce c.pid req (service s).codecEngine).2 ∧
      trackings (service out.2).actions =
        trackings (service s).actions ++ op.tracking c.pid reply := by
  intro req reply out
  obtain ⟨data, s', hcall, hservice⟩ := d.remoteCall hc op.fxn op.size
    (Operation.get32_fill c.pid env.mem · op) (Operation.decode_fill c.pid env.mem · hop) s
  have hout : out = (op.returns reply, s') := stub_eq hc env op hcall
  rw [hout]
  refine ⟨rfl, ?_, by rw [hservice], ?_⟩
  · rw [hservice, ← invocations_actions c.pid reply req]
    exact List.filterMap_append
  · rw [hservice, ← trackings_actions env.mem c.pid reply op]
    exact List.filter_append _ _

/-- The simplest RCM: it calls the handler on the spot. -/
def loopback (ce : CodecEngine κ) (dispatch : Word → Option Fxn) (junk : Message) :
    Rcm (Service κ) where
  alloc handle _ s := (if handle = 0 then .error (-1) else .ok junk, s)
  exec _ msg s :=
    match dispatch msg.fxnIdx with
    | some fxn =>
        let w := rpc ce ⟨s, msg.data, 0⟩ fxn
        (.ok (), ⟨msg.fxnIdx, w.data⟩, w.toService)
    | none => (.error (-1), msg, s)
  free _ _ s := s

theorem loopback_delivers (ce : CodecEngine κ) (dispatch : Word → Option Fxn) (junk : Message) :
    Delivers (loopback ce dispatch junk) id ce dispatch where
  alloc handle size s h := ⟨junk, s, by simp only [loopback, if_neg h], rfl⟩
  exec handle msg s fxn _ hfxn := by
    refine ⟨0, ⟨msg.fxnIdx, (rpc ce ⟨s, msg.data, 0⟩ fxn).data⟩,
      (rpc ce ⟨s, msg.data, 0⟩ fxn).toService, ?_, rfl, rfl⟩
    simp only [loopback, hfxn]
  free _ _ _ := rfl

/-- A codec is created for process 7 on an engine that has the handle 5, through
a message full of ones; Codec Engine answers with the number of the call. -/
theorem remote_call_transparent_create :
    let ce : CodecEngine Word := fun _ _ n => (⟨n, 0⟩, n + 1)
    let dispatch := fun i : Word => Fxn.all[i.toNat]?
    let c : Connection := ⟨1, 1, 7, fun f => BitVec.ofNat 32 (Fxn.all.idxOf f), true, true, []⟩
    let env : ClientEnv := ⟨fun _ => 0x90, 0, ⟨0, 7, .ok 1, fun _ => .ok 0⟩, ⟨0, 0⟩⟩
    let out := (Operation.viddec3Create 5 ⟨[0x68, 0x32, 0x36, 0x34], by decide⟩ 4096).stub
      (loopback ce dispatch ⟨0, fun _ => 0xff⟩) env c ⟨Clients.zero, 42, []⟩
    out.1 = ⟨some 42, none⟩ ∧
      invocations out.2.actions =
        [(7, .viddec3Create 5 (some ⟨[0x68, 0x32, 0x36, 0x34], by decide⟩) 0x90909090)] ∧
      out.2.codecEngine = 43 ∧
      trackings out.2.actions = [.register .codec 7 42] := by
  intro ce dispatch c env out
  have hc : Established dispatch c := ⟨by decide, by decide, fun f => by cases f <;> rfl⟩
  have hop : (Operation.viddec3Create 5 ⟨[0x68, 0x32, 0x36, 0x34], by decide⟩ 4096).Accepted :=
    ⟨by decide, by decide⟩
  have haddr : ducatiAddr env.mem 4096 = 0x90909090 := by decide +kernel
  have h := remote_call_transparent (loopback_delivers ce dispatch ⟨0, fun _ => 0xff⟩) hc hop env
    ⟨Clients.zero, 42, []⟩
  simp only [Operation.request, haddr] at h
  exact h

end Delivery

end Libdce.Remote
