import Libdce.Host.Connection
import Libdce.Host.Memory
import Libdce.Remote.Layout

/-!
# Client stubs

A stub allocates an RCM message, fills in the `in` structure, executes it and
reads the `out` structure of the reply. The RCM client is a parameter: it may
keep a state of its own and may fail at every call.

## Implementation notes

Allocation hands out a message only when it succeeds, and execution always
leaves one message behind, which the stub frees. The result variable of
`VIDDEC3_create`, `VIDDEC3_control` and `VIDDEC3_process` has no initialiser:
on a failure these stubs return the word `ret` that happens to be there. The
attributes of `Engine_open` are only traced and are left out.
-/

namespace Libdce.Host

open Foundation.Bytes Remote

/-- An RCM message; the allocated size is the stub's business. -/
structure Message where
  fxnIdx : Word
  data : Buffer

/-- The functions of the RCM client that the stubs call. -/
structure Rcm (σ : Type*) where
  alloc : Word → Nat → σ → Except Word Message × σ
  exec : Word → Message → σ → Except Word Unit × Message × σ
  free : Word → Message → σ → σ

/-- What a caller gets back: the value returned, and the value stored through
`ec` if any. -/
structure Return where
  value : Option Word
  ec : Option Word
  deriving DecidableEq, Repr

variable {σ : Type*}

/-- The steps common to the six stubs; the result is the data of the reply. -/
def remoteCall (rcm : Rcm σ) (c : Connection) (fxn : Fxn) (size : Nat) (fill : Buffer → Buffer)
    (s : σ) : Except Word Buffer × σ :=
  match rcm.alloc c.handle size s with
  | (.error err, s) => (.error err, s)
  | (.ok msg, s) =>
      match rcm.exec c.handle ⟨c.idx fxn, fill msg.data⟩ s with
      | (.error err, msg, s) => (.error err, rcm.free c.handle msg s)
      | (.ok (), msg, s) => (.ok msg.data, rcm.free c.handle msg s)

section Fill

variable (pid : Pid) (mem data : Buffer)

/-- The stores of `Engine_open` into the message. -/
def fillEngineOpen (name : CString) : Buffer :=
  (data.put32 EngineOpenArgs.inPid pid).strncpy EngineOpenArgs.inName name (nameDim - 1)

/-- The stores of `Engine_close` into the message. -/
def fillEngineClose (engine : Handle) : Buffer :=
  (data.put32 EngineCloseArgs.inPid pid).put32 EngineCloseArgs.inEngine engine

/-- The stores of `VIDDEC3_create` into the message. -/
def fillViddec3Create (engine : Handle) (name : CString) (params : Word) : Buffer :=
  let data := data.put32 Viddec3CreateArgs.inPid pid
  let data := data.put32 Viddec3CreateArgs.inEngine engine
  let data := data.strncpy Viddec3CreateArgs.inName name (nameDim - 1)
  data.put32 Viddec3CreateArgs.inParams (virt2ducati mem params)

/-- The stores of `VIDDEC3_control` into the message. -/
def fillViddec3Control (codec : Handle) (id dynParams status : Word) : Buffer :=
  let data := data.put32 Viddec3ControlArgs.inPid pid
  let data := data.put32 Viddec3ControlArgs.inCodec codec
  let data := data.put32 Viddec3ControlArgs.inId id
  let data := data.put32 Viddec3ControlArgs.inDynParams (virt2ducati mem dynParams)
  data.put32 Viddec3ControlArgs.inStatus (virt2ducati mem status)

/-- The stores of `VIDDEC3_process` into the message. -/
def fillViddec3Process (codec : Handle) (inBufs outBufs inArgs outArgs : Word) : Buffer :=
  let data := data.put32 Viddec3ProcessArgs.inPid pid
  let data := data.put32 Viddec3ProcessArgs.inCodec codec
  let data := data.put32 Viddec3ProcessArgs.inInBufs (virt2ducati mem inBufs)
  let data := data.put32 Viddec3ProcessArgs.inOutBufs (virt2ducati mem outBufs)
  let data := data.put32 Viddec3ProcessArgs.inInArgs (virt2ducati mem inArgs)
  data.put32 Viddec3ProcessArgs.inOutArgs (virt2ducati mem outArgs)

/-- The stores of `VIDDEC3_delete` into the message. -/
def fillViddec3Delete (codec : Handle) : Buffer :=
  (data.put32 Viddec3DeleteArgs.inPid pid).put32 Viddec3DeleteArgs.inCodec codec

end Fill

/-- `Engine_open`; `ec` tells whether the caller passes a pointer for the error. -/
def engineOpen (rcm : Rcm σ) (answers : SetupAnswers) (name : CString) (ec : Bool)
    (c : Connection) (s : σ) : Return × Connection × σ :=
  let c := init answers c
  match remoteCall rcm c .engineOpen EngineOpenArgs.size
      (fun data => fillEngineOpen c.pid data name) s with
  | (.error _, s) => (⟨some 0, none⟩, c, s)
  | (.ok data, s) =>
      (⟨some (data.get32 EngineOpenArgs.outEngine),
        if ec then some (data.get32 EngineOpenArgs.outEc) else none⟩, c, s)

/-- `Engine_close`. -/
def engineClose (rcm : Rcm σ) (answers : TeardownAnswers) (engine : Handle)
    (c : Connection) (s : σ) : Return × Connection × σ :=
  let (_, s) := remoteCall rcm c .engineClose EngineCloseArgs.size
    (fun data => fillEngineClose c.pid data engine) s
  (⟨none, none⟩, deinit answers c, s)

/-- `VIDDEC3_create`. -/
def viddec3Create (rcm : Rcm σ) (mem : Buffer) (ret : Word) (engine : Handle) (name : CString)
    (params : Word) (c : Connection) (s : σ) : Return × σ :=
  match remoteCall rcm c .viddec3Create Viddec3CreateArgs.size
      (fun data => fillViddec3Create c.pid mem data engine name params) s with
  | (.error _, s) => (⟨some ret, none⟩, s)
  | (.ok data, s) => (⟨some (data.get32 Viddec3CreateArgs.outCodec), none⟩, s)

/-- `VIDDEC3_control`. -/
def viddec3Control (rcm : Rcm σ) (mem : Buffer) (ret : Word) (codec : Handle)
    (id dynParams status : Word) (c : Connection) (s : σ) : Return × σ :=
  match remoteCall rcm c .viddec3Control Viddec3ControlArgs.size
      (fun data => fillViddec3Control c.pid mem data codec id dynParams status) s with
  | (.error _, s) => (⟨some ret, none⟩, s)
  | (.ok data, s) => (⟨some (data.get32 Viddec3ControlArgs.outRet), none⟩, s)

/-- `VIDDEC3_process`. -/
def viddec3Process (rcm : Rcm σ) (mem : Buffer) (ret : Word) (codec : Handle)
    (inBufs outBufs inArgs outArgs : Word) (c : Connection) (s : σ) : Return × σ :=
  match remoteCall rcm c .viddec3Process Viddec3ProcessArgs.size
      (fun data => fillViddec3Process c.pid mem data codec inBufs outBufs inArgs outArgs) s with
  | (.error _, s) => (⟨some ret, none⟩, s)
  | (.ok data, s) => (⟨some (data.get32 Viddec3ProcessArgs.outRet), none⟩, s)

/-- `VIDDEC3_delete`. -/
def viddec3Delete (rcm : Rcm σ) (codec : Handle) (c : Connection) (s : σ) : Return × σ :=
  let (_, s) := remoteCall rcm c .viddec3Delete Viddec3DeleteArgs.size
    (fun data => fillViddec3Delete c.pid data codec) s
  (⟨none, none⟩, s)

variable (rcm : Rcm σ) (c : Connection) (s : σ)

/-- Whatever RCM does, opening an engine changes the connection by `init` only. -/
@[simp] theorem engineOpen_connection (answers : SetupAnswers) (name : CString) (ec : Bool) :
    (engineOpen rcm answers name ec c s).2.1 = init answers c := by
  simp only [engineOpen]
  split <;> rfl

/-- Whatever RCM does, closing an engine changes the connection by `deinit`. -/
@[simp] theorem engineClose_connection (answers : TeardownAnswers) (engine : Handle) :
    (engineClose rcm answers engine c s).2.1 = deinit answers c := rfl

end Libdce.Host
