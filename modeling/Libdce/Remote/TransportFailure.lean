import Libdce.Remote.Transparency

/-!
# When RCM fails

A stub whose message cannot be allocated or executed goes to its exit label and
returns its result variable. `Engine_open` has initialised it; `VIDDEC3_create`,
`VIDDEC3_control` and `VIDDEC3_process` have not, so their callers learn of the
failure only if the variable happens to hold a value that says so. All six stubs
give back the message they were left with.
-/

namespace Libdce.Remote

open Foundation.Bytes Host

variable {σ : Type*}

/-- A call of an RCM function that hands a message out or takes one back. -/
inductive RcmEvent where
  | refused
  | alloc (msg : Message)
  | exec (sent left : Message)
  | free (msg : Message)

/-- The RCM client with a record of what it was asked to do. -/
def logged (rcm : Rcm σ) : Rcm (σ × List RcmEvent) where
  alloc handle size s :=
    match rcm.alloc handle size s.1 with
    | (.error err, t) => (.error err, t, s.2 ++ [.refused])
    | (.ok msg, t) => (.ok msg, t, s.2 ++ [.alloc msg])
  exec handle msg s :=
    match rcm.exec handle msg s.1 with
    | (result, left, t) => (result, left, t, s.2 ++ [.exec msg left])
  free handle msg s := (rcm.free handle msg s.1, s.2 ++ [.free msg])

/-- No message was handed out, or the message that its execution left was freed
and nothing else. -/
inductive FreedOnce : List RcmEvent → Prop
  | refused : FreedOnce [.refused]
  | freed (msg sent left : Message) : FreedOnce [.alloc msg, .exec sent left, .free left]

namespace Operation

/-- The connection that the stub uses. -/
def connection (env : ClientEnv) (c : Connection) : Operation → Connection
  | .engineOpen _ _ => init env.setup c
  | _ => c

/-- `RcmClient_alloc` or `RcmClient_exec` fails in the call. -/
def TransportFails (rcm : Rcm σ) (env : ClientEnv) (c : Connection) (s : σ) (op : Operation) :
    Prop :=
  let link := op.connection env c
  (∃ err s', rcm.alloc link.handle op.size s = (.error err, s')) ∨
    ∃ msg s', rcm.alloc link.handle op.size s = (.ok msg, s') ∧
      ∃ err left s'', rcm.exec link.handle
        ⟨link.idx op.fxn, op.fill link.pid env.mem msg.data⟩ s' = (.error err, left, s'')

/-- The value that the API gives for a failure: a null handle, or a non-zero code. -/
def Reports (r : Return) : Operation → Prop
  | .engineOpen _ _ => r.value = some 0
  | .viddec3Create _ _ _ => r.value = some 0
  | .viddec3Control _ _ _ _ => ∃ code, code ≠ 0 ∧ r.value = some code
  | .viddec3Process _ _ _ _ _ => ∃ code, code ≠ 0 ∧ r.value = some code
  | _ => True

/-- What an uninitialised result variable would have to hold. -/
def FailsSafe (ret : Word) : Operation → Prop
  | .viddec3Create _ _ _ => ret = 0
  | .viddec3Control _ _ _ _ => ret ≠ 0
  | .viddec3Process _ _ _ _ _ => ret ≠ 0
  | _ => True

/-- What a stub returns from its exit label. -/
def returnsFailed (ret : Word) : Operation → Return
  | .engineOpen _ _ => ⟨some 0, none⟩
  | .viddec3Create _ _ _ => ⟨some ret, none⟩
  | .viddec3Control _ _ _ _ => ⟨some ret, none⟩
  | .viddec3Process _ _ _ _ _ => ⟨some ret, none⟩
  | _ => ⟨none, none⟩

end Operation

section Stubs

variable (rcm : Rcm σ) (env : ClientEnv) (c : Connection) (s : σ) (op : Operation)

/-- The remote call in the middle of a stub. -/
def Operation.call : Except Word Buffer × σ :=
  Host.remoteCall rcm (op.connection env c) op.fxn op.size
    (fun data => op.fill (op.connection env c).pid env.mem data) s

/-- A stub leaves RCM as its remote call does. -/
theorem stub_transport : (op.stub rcm env c s).2 = (op.call rcm env c s).2 := by
  cases op with
  | engineOpen name ec =>
      simp only [Operation.stub, Host.engineOpen, Operation.call]
      split <;> next h => exact (congrArg Prod.snd h).symm
  | engineClose engine => rfl
  | viddec3Create engine name params =>
      simp only [Operation.stub, Host.viddec3Create, Operation.call]
      split <;> next h => exact (congrArg Prod.snd h).symm
  | viddec3Control codec id dynParams status =>
      simp only [Operation.stub, Host.viddec3Control, Operation.call]
      split <;> next h => exact (congrArg Prod.snd h).symm
  | viddec3Process codec inBufs outBufs inArgs outArgs =>
      simp only [Operation.stub, Host.viddec3Process, Operation.call]
      split <;> next h => exact (congrArg Prod.snd h).symm
  | viddec3Delete codec => rfl

/-- A stub whose remote call fails returns its result variable as it is. -/
theorem stub_of_error {err : Word} {s' : σ} (h : op.call rcm env c s = (.error err, s')) :
    (op.stub rcm env c s).1 = op.returnsFailed env.ret := by
  cases op with
  | engineOpen name ec =>
      have hcall : Host.remoteCall rcm (init env.setup c) .engineOpen EngineOpenArgs.size
          (fun data => fillEngineOpen (init env.setup c).pid data name) s = (.error err, s') := h
      simp only [Operation.stub, Host.engineOpen, hcall, Operation.returnsFailed]
  | engineClose engine => rfl
  | viddec3Create engine name params =>
      have hcall : Host.remoteCall rcm c .viddec3Create Viddec3CreateArgs.size
          (fun data => fillViddec3Create c.pid env.mem data engine name params) s =
          (.error err, s') := h
      simp only [Operation.stub, Host.viddec3Create, hcall, Operation.returnsFailed]
  | viddec3Control codec id dynParams status =>
      have hcall : Host.remoteCall rcm c .viddec3Control Viddec3ControlArgs.size
          (fun data => fillViddec3Control c.pid env.mem data codec id dynParams status) s =
          (.error err, s') := h
      simp only [Operation.stub, Host.viddec3Control, hcall, Operation.returnsFailed]
  | viddec3Process codec inBufs outBufs inArgs outArgs =>
      have hcall : Host.remoteCall rcm c .viddec3Process Viddec3ProcessArgs.size
          (fun data => fillViddec3Process c.pid env.mem data codec inBufs outBufs inArgs outArgs)
          s = (.error err, s') := h
      simp only [Operation.stub, Host.viddec3Process, hcall, Operation.returnsFailed]
  | viddec3Delete codec => rfl

/-- The remote call fails where RCM does. -/
theorem call_of_transportFails (h : op.TransportFails rcm env c s) :
    ∃ err s', op.call rcm env c s = (.error err, s') := by
  rcases h with ⟨err, s', halloc⟩ | ⟨msg, s', halloc, err, left, s'', hexec⟩
  · exact ⟨err, s', by simp only [Operation.call, Host.remoteCall, halloc]⟩
  · refine ⟨err, rcm.free (op.connection env c).handle left s'', ?_⟩
    simp only [Operation.call, Host.remoteCall, halloc, hexec]

/-- The result variable says so only if it was initialised or by accident. -/
theorem reports_returnsFailed_iff (ret : Word) :
    op.Reports (op.returnsFailed ret) ↔ op.FailsSafe ret := by
  cases op with
  | engineOpen name ec => exact iff_of_true rfl trivial
  | engineClose engine => exact Iff.rfl
  | viddec3Create engine name params =>
      simp only [Operation.Reports, Operation.returnsFailed, Operation.FailsSafe,
        Option.some.injEq]
  | viddec3Control codec id dynParams status =>
      simp [Operation.Reports, Operation.returnsFailed, Operation.FailsSafe]
  | viddec3Process codec inBufs outBufs inArgs outArgs =>
      simp [Operation.Reports, Operation.returnsFailed, Operation.FailsSafe]
  | viddec3Delete codec => exact Iff.rfl

/-- Whatever happens in a remote call, the message handed out is freed once. -/
theorem freedOnce_remoteCall (link : Connection) (fxn : Fxn) (size : Nat) (fill : Buffer → Buffer)
    (log : List RcmEvent) :
    ∃ events, (Host.remoteCall (logged rcm) link fxn size fill (s, log)).2.2 = log ++ events ∧
      FreedOnce events := by
  cases halloc : rcm.alloc link.handle size s with
  | mk result s' =>
      cases result with
      | error err =>
          refine ⟨[.refused], ?_, FreedOnce.refused⟩
          simp only [Host.remoteCall, logged, halloc]
      | ok msg =>
          cases hexec : rcm.exec link.handle ⟨link.idx fxn, fill msg.data⟩ s' with
          | mk result rest =>
              obtain ⟨left, s''⟩ := rest
              refine ⟨[.alloc msg, .exec ⟨link.idx fxn, fill msg.data⟩ left, .free left], ?_,
                FreedOnce.freed _ _ _⟩
              cases result with
              | error err =>
                  simp only [Host.remoteCall, logged, halloc, hexec, List.append_assoc,
                    List.cons_append, List.nil_append]
              | ok _ =>
                  simp only [Host.remoteCall, logged, halloc, hexec, List.append_assoc,
                    List.cons_append, List.nil_append]

end Stubs

/-- A stub in which RCM fails returns the failure value of its API exactly when
its result variable was initialised, or holds such a value by accident; and every
stub, whatever RCM does, frees the message it was left with and nothing else. -/
theorem transport_failure_reported_iff (rcm : Rcm σ) (env : ClientEnv) (c : Connection) (s : σ)
    (op : Operation) :
    (op.TransportFails rcm env c s →
      (op.Reports (op.stub rcm env c s).1 ↔ op.FailsSafe env.ret)) ∧
    ∀ log, ∃ events, (op.stub (logged rcm) env c (s, log)).2.2 = log ++ events ∧
      FreedOnce events := by
  constructor
  · intro hfails
    obtain ⟨err, s', hcall⟩ := call_of_transportFails rcm env c s op hfails
    rw [stub_of_error rcm env c s op hcall]
    exact reports_returnsFailed_iff op env.ret
  · intro log
    rw [stub_transport]
    exact freedOnce_remoteCall rcm s _ _ _ _ log

/-- A client process in which the uninitialised variable holds the given word. -/
def clientEnv (ret : Word) : ClientEnv :=
  ⟨fun _ => 0, ret, ⟨0, 7, .ok 1, fun _ => .ok 0⟩, ⟨0, 0⟩⟩

/-- An RCM client that allocates no message. -/
def noMessages : Rcm Unit where
  alloc _ _ s := (.error (-1), s)
  exec _ msg s := (.error (-1), msg, s)
  free _ _ s := s

/-- With no message to be had, a create returns a handle and a control and a
process call return success. -/
theorem transport_failure_unreported :
    let c : Connection := ⟨1, 1, 7, fun _ => 0, true, true, []⟩
    let create : Operation := .viddec3Create 5 ⟨[], List.not_mem_nil⟩ 4096
    let control : Operation := .viddec3Control 5 0 4096 8192
    let process : Operation := .viddec3Process 5 4096 4096 4096 4096
    create.TransportFails noMessages (clientEnv 77) c () ∧
      (create.stub noMessages (clientEnv 77) c ()).1 = ⟨some 77, none⟩ ∧
    control.TransportFails noMessages (clientEnv 0) c () ∧
      (control.stub noMessages (clientEnv 0) c ()).1 = ⟨some 0, none⟩ ∧
    process.TransportFails noMessages (clientEnv 0) c () ∧
      (process.stub noMessages (clientEnv 0) c ()).1 = ⟨some 0, none⟩ :=
  ⟨Or.inl ⟨_, _, rfl⟩, rfl, Or.inl ⟨_, _, rfl⟩, rfl, Or.inl ⟨_, _, rfl⟩, rfl⟩

end Libdce.Remote
