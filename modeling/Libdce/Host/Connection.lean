import Libdce.Basic

/-!
# The client's connection

The client library keeps one connection for the whole process: IPC, an RCM
client, and the indices of the six remote functions. `init` sets it up and
`deinit` tears it down; a counter guards both. What the platform answers while
it is set up or torn down is a parameter.

## Implementation notes

The statuses of `Ipc_setup`, `dce_init`, `dce_deinit` and `Ipc_destroy` are only
traced by the source, so `init` and `deinit` go on after a failure. The
connection also carries the list of these four calls.
-/

namespace Libdce.Host

/-- The remote functions, in the order in which `dce_init` looks them up. -/
inductive Fxn where
  | engineOpen
  | engineClose
  | viddec3Create
  | viddec3Control
  | viddec3Process
  | viddec3Delete
  deriving DecidableEq, Repr

/-- The `SETUP_FXN` lines of `dce_init`. -/
def Fxn.all : List Fxn :=
  [.engineOpen, .engineClose, .viddec3Create, .viddec3Control, .viddec3Process, .viddec3Delete]

theorem Fxn.mem_all (f : Fxn) : f ∈ Fxn.all := by
  cases f <;> decide

/-- The calls that bring the connection up and down. -/
inductive LinkCall where
  | ipcSetup
  | dceInit
  | dceDeinit
  | ipcDestroy
  deriving DecidableEq, Repr

/-- The variables `count`, `handle`, `pid` and `idx_…` of the client library, and
what the platform holds for them. -/
structure Connection where
  count : Word
  handle : Word
  pid : Pid
  idx : Fxn → Word
  ipcUp : Bool
  rcmClient : Bool
  calls : List LinkCall

/-- A process that has just started. -/
def Connection.zero : Connection := ⟨0, 0, 0, fun _ => 0, false, false, []⟩

/-- `err < 0`. -/
def failed (err : Word) : Bool := err.slt 0

/-- What the platform answers during a set-up. -/
structure SetupAnswers where
  ipcSetup : Word
  getpid : Pid
  rcmCreate : Except Word Word
  getSymbolIndex : Fxn → Except Word Word

/-- What the platform answers during a tear-down. -/
structure TeardownAnswers where
  rcmDelete : Word
  ipcDestroy : Word

/-- `SETUP_FXN` for each function in turn; the first failure returns. -/
def setupFxns (answers : SetupAnswers) : List Fxn → Connection → Except Word Unit × Connection
  | [], c => (.ok (), c)
  | f :: fs, c =>
      match answers.getSymbolIndex f with
      | .error err => (.error err, c)
      | .ok i => setupFxns answers fs { c with idx := fun g => if g = f then i else c.idx g }

/-- `dce_init` on the client. -/
def dceInit (answers : SetupAnswers) (c : Connection) : Except Word Unit × Connection :=
  match answers.rcmCreate with
  | .error err => (.error err, c)
  | .ok handle => setupFxns answers Fxn.all { c with handle := handle, rcmClient := true }

/-- `dce_deinit` on the client. -/
def dceDeinit (answers : TeardownAnswers) (c : Connection) : Connection :=
  if c.handle ≠ 0 then
    { c with handle := 0, rcmClient := c.rcmClient && failed answers.rcmDelete }
  else c

/-- `init`, under the mutex. -/
def init (answers : SetupAnswers) (c : Connection) : Connection :=
  if (0 : Word).slt c.count then c
  else
    (dceInit answers
      { c with
        count := c.count + 1
        ipcUp := c.ipcUp || !failed answers.ipcSetup
        pid := answers.getpid
        calls := c.calls ++ [.ipcSetup, .dceInit] }).2

/-- `deinit`, under the mutex. -/
def deinit (answers : TeardownAnswers) (c : Connection) : Connection :=
  if (0 : Word).slt (c.count - 1) then { c with count := c.count - 1 }
  else
    let c := dceDeinit answers { c with count := c.count - 1 }
    { c with
      ipcUp := c.ipcUp && failed answers.ipcDestroy
      calls := c.calls ++ [.dceDeinit, .ipcDestroy] }

/-- Every step of the set-up succeeds. -/
structure SetupAnswers.Succeed (answers : SetupAnswers) : Prop where
  ipcSetup : failed answers.ipcSetup = false
  rcmCreate : ∃ handle, handle ≠ 0 ∧ answers.rcmCreate = .ok handle
  getSymbolIndex : ∀ f, ∃ i, answers.getSymbolIndex f = .ok i

/-- Every step of the tear-down succeeds. -/
structure TeardownAnswers.Succeed (answers : TeardownAnswers) : Prop where
  rcmDelete : failed answers.rcmDelete = false
  ipcDestroy : failed answers.ipcDestroy = false

variable {answers : SetupAnswers} {c : Connection}

/-- The look-ups store the indices they find and nothing else. -/
theorem setupFxns_of_ok {i : Fxn → Word} (h : ∀ f, answers.getSymbolIndex f = .ok (i f))
    (fs : List Fxn) (c : Connection) :
    setupFxns answers fs c =
      (.ok (), { c with idx := fun f => if f ∈ fs then i f else c.idx f }) := by
  induction fs generalizing c with
  | nil => rfl
  | cons f fs ih =>
      simp only [setupFxns, h f, ih]
      congr 2
      ext g : 1
      by_cases hg : g ∈ fs
      · simp [hg]
      · by_cases hgf : g = f <;> simp [hg, hgf]

/-- A positive count makes `init` a no-op: it is not incremented either. -/
theorem init_of_pos (h : (0 : Word).slt c.count = true) : init answers c = c := if_pos h

/-- The set-up of an unused connection. -/
theorem init_of_zero (ha : answers.Succeed) (h : c.count = 0) :
    ∃ handle idx, handle ≠ 0 ∧ (∀ f, answers.getSymbolIndex f = .ok (idx f)) ∧
      init answers c =
        ⟨1, handle, answers.getpid, idx, true, true, c.calls ++ [.ipcSetup, .dceInit]⟩ := by
  obtain ⟨handle, hne, hcreate⟩ := ha.rcmCreate
  choose idx hidx using ha.getSymbolIndex
  refine ⟨handle, idx, hne, hidx, ?_⟩
  have hcount : ¬(0 : Word).slt c.count = true := by
    rw [h]
    decide
  rw [init, if_neg hcount]
  simp only [dceInit, hcreate, ha.ipcSetup, h, Bool.not_false, Bool.or_true, setupFxns_of_ok hidx,
    Fxn.mem_all, if_true]
  rfl

/-- With a count of one, `deinit` tears the connection down. -/
theorem deinit_of_one {answers : TeardownAnswers} (ha : answers.Succeed) (h : c.count = 1)
    (hhandle : c.handle ≠ 0) :
    deinit answers c =
      { c with
        count := 0
        handle := 0
        ipcUp := false
        rcmClient := false
        calls := c.calls ++ [.dceDeinit, .ipcDestroy] } := by
  have hcount : c.count - 1 = 0 := by
    rw [h]
    rfl
  rw [deinit, hcount, if_neg (by decide)]
  simp only [dceDeinit, ne_eq, hhandle, not_false_eq_true, if_true, ha.rcmDelete, ha.ipcDestroy,
    Bool.and_false]

end Libdce.Host
