import Libdce.Foundation.GuardedRuns
import Libdce.Host.Stubs

/-!
# The connection and the open engines

A session is a client with its open engines. The connection should be up
exactly while an engine is open. The counter that decides this is incremented
only when it is not yet positive, but decremented by every close, so the
connection follows the engines exactly as long as no engine is closed while
another one is open.
-/

namespace Libdce.Host

open Foundation.GuardedRuns Foundation.Bytes

variable {σ : Type*}

/-- The connection, the state of the RCM client and the engines that are open. -/
structure Session (σ : Type*) where
  connection : Connection
  transport : σ
  opened : Finset Handle

/-- A call that concerns the connection, with what the platform answers to it. -/
inductive Call where
  | engineOpen (name : CString) (ec : Bool) (answers : SetupAnswers)
  | engineClose (engine : Handle) (answers : TeardownAnswers)

/-- The call that has to follow a call if set-up and tear-down alternate. -/
def LinkCall.next : LinkCall → LinkCall
  | .ipcSetup => .dceInit
  | .dceInit => .dceDeinit
  | .dceDeinit => .ipcDestroy
  | .ipcDestroy => .ipcSetup

/-- The calls go round and round, beginning with a set-up. -/
def Alternates (calls : List LinkCall) : Prop :=
  (LinkCall.ipcDestroy :: calls).IsChain fun a b => b = a.next

namespace Session

/-- No engine is open and the connection was never used. -/
def start (s : σ) : Session σ := ⟨Connection.zero, s, ∅⟩

/-- The connection is up exactly when an engine is open, and was never set up
twice or torn down twice in a row. -/
def Follows (s : Session σ) : Prop :=
  (s.connection.ipcUp = true ∧ s.connection.handle ≠ 0 ↔ s.opened.Nonempty) ∧
    Alternates s.connection.calls

variable (rcm : Rcm σ)

/-- A client makes a call; a null engine is no engine. -/
def step (s : Session σ) : Call → Session σ
  | .engineOpen name ec answers =>
      let (r, c, t) := Host.engineOpen rcm answers name ec s.connection s.transport
      let engine := r.value.getD 0
      ⟨c, t, if engine = 0 then s.opened else insert engine s.opened⟩
  | .engineClose engine answers =>
      let (_, c, t) := Host.engineClose rcm answers engine s.connection s.transport
      ⟨c, t, s.opened.erase engine⟩

/-- Set-up and tear-down succeed, `Engine_open` returns an engine that is not
open yet, and `Engine_close` is given an open one. -/
def Legal (s : Session σ) : Call → Prop
  | .engineOpen name ec answers => answers.Succeed ∧
      ∃ engine, (Host.engineOpen rcm answers name ec s.connection s.transport).1.value =
        some engine ∧ engine ≠ 0 ∧ engine ∉ s.opened
  | .engineClose engine answers => answers.Succeed ∧ engine ∈ s.opened

/-- An engine is closed only when it is the only one. -/
def ClosesOnly (s : Session σ) : Call → Prop
  | .engineOpen _ _ _ => True
  | .engineClose engine _ => s.opened = {engine}

/-- The counter is one exactly while an engine is open, and the last call made
was the one that brought the connection to its present state. -/
structure Linked (s : Session σ) : Prop where
  count : s.connection.count = if s.opened.Nonempty then 1 else 0
  ipcUp : s.connection.ipcUp = true ↔ s.opened.Nonempty
  handle : s.connection.handle ≠ 0 ↔ s.opened.Nonempty
  calls : Alternates s.connection.calls
  last : (LinkCall.ipcDestroy :: s.connection.calls).getLast? =
    some (if s.opened.Nonempty then .dceInit else .ipcDestroy)

variable {rcm} {s : Session σ}

theorem Linked.follows (h : s.Linked) : s.Follows := by
  refine ⟨?_, h.calls⟩
  rw [h.ipcUp, h.handle, and_self]

theorem linked_start (t : σ) : (start t).Linked where
  count := rfl
  ipcUp := by simp [start, Connection.zero]
  handle := by simp [start, Connection.zero]
  calls := List.IsChain.singleton _
  last := rfl

/-- Two more calls in turn after the last one. -/
theorem alternates_append {calls : List LinkCall} {last : LinkCall} (h : Alternates calls)
    (hlast : (LinkCall.ipcDestroy :: calls).getLast? = some last) :
    Alternates (calls ++ [last.next, last.next.next]) ∧
      (LinkCall.ipcDestroy :: (calls ++ [last.next, last.next.next])).getLast? =
        some last.next.next := by
  refine ⟨?_, by rw [← List.cons_append, List.getLast?_append]; rfl⟩
  unfold Alternates
  rw [← List.cons_append, List.isChain_append]
  refine ⟨h, by simp, ?_⟩
  rintro x hx y hy
  rw [hlast] at hx
  cases hx
  cases hy
  rfl

theorem step_engineOpen {name : CString} {ec : Bool} {answers : SetupAnswers}
    (hlegal : s.Legal rcm (.engineOpen name ec answers)) :
    ∃ engine t, s.step rcm (.engineOpen name ec answers) =
      ⟨init answers s.connection, t, insert engine s.opened⟩ := by
  obtain ⟨_, engine, hvalue, hne, _⟩ := hlegal
  refine ⟨engine, (Host.engineOpen rcm answers name ec s.connection s.transport).2.2, ?_⟩
  simp only [step, hvalue, Option.getD_some, hne, if_false, engineOpen_connection]

theorem step_engineClose (rcm : Rcm σ) (s : Session σ) (engine : Handle)
    (answers : TeardownAnswers) :
    ∃ t, s.step rcm (.engineClose engine answers) =
      ⟨deinit answers s.connection, t, s.opened.erase engine⟩ :=
  ⟨_, rfl⟩

/-- Opening an engine sets the connection up if and only if it is the first. -/
theorem Linked.step_engineOpen (h : s.Linked) {name : CString} {ec : Bool}
    {answers : SetupAnswers} (hlegal : s.Legal rcm (.engineOpen name ec answers)) :
    (s.step rcm (.engineOpen name ec answers)).Linked := by
  obtain ⟨engine, t, hstep⟩ := Session.step_engineOpen hlegal
  have hnow : (insert engine s.opened).Nonempty := Finset.insert_nonempty _ _
  rw [hstep]
  by_cases hopened : s.opened.Nonempty
  · -- an engine is open already: the connection stays as it is
    have hcount : s.connection.count = 1 := by
      rw [h.count, if_pos hopened]
    rw [init_of_pos (by rw [hcount]; decide)]
    exact {
      count := by rw [hcount, if_pos hnow]
      ipcUp := h.ipcUp.trans (iff_of_true hopened hnow)
      handle := h.handle.trans (iff_of_true hopened hnow)
      calls := h.calls
      last := by rw [h.last, if_pos hopened, if_pos hnow] }
  · have hcount : s.connection.count = 0 := by
      rw [h.count, if_neg hopened]
    have hlast := h.last
    rw [if_neg hopened] at hlast
    obtain ⟨handle, idx, hne, -, hinit⟩ := init_of_zero hlegal.1 hcount
    obtain ⟨hcalls, hlast⟩ := alternates_append h.calls hlast
    rw [hinit]
    exact {
      count := by rw [if_pos hnow]
      ipcUp := iff_of_true rfl hnow
      handle := iff_of_true hne hnow
      calls := hcalls
      last := by rw [if_pos hnow]; exact hlast }

/-- Closing an engine tears the connection down, whatever is still open. -/
theorem Linked.deinit_engineClose (h : s.Linked) {engine : Handle} {answers : TeardownAnswers}
    (hlegal : s.Legal rcm (.engineClose engine answers)) :
    deinit answers s.connection =
      { s.connection with
        count := 0
        handle := 0
        ipcUp := false
        rcmClient := false
        calls := s.connection.calls ++ [.dceDeinit, .ipcDestroy] } := by
  have hopened : s.opened.Nonempty := ⟨engine, hlegal.2⟩
  apply deinit_of_one hlegal.1
  · rw [h.count, if_pos hopened]
  · exact h.handle.mpr hopened

theorem Linked.step_engineClose (h : s.Linked) {engine : Handle} {answers : TeardownAnswers}
    (hlegal : s.Legal rcm (.engineClose engine answers)) (honly : s.opened = {engine}) :
    (s.step rcm (.engineClose engine answers)).Linked := by
  obtain ⟨t, hstep⟩ := Session.step_engineClose rcm s engine answers
  have hnow : ¬(s.opened.erase engine).Nonempty := by
    rw [honly, Finset.erase_singleton]
    exact Finset.not_nonempty_empty
  have hlast := h.last
  rw [if_pos ⟨engine, hlegal.2⟩] at hlast
  obtain ⟨hcalls, hlast⟩ := alternates_append h.calls hlast
  rw [hstep, h.deinit_engineClose hlegal]
  exact {
    count := by rw [if_neg hnow]
    ipcUp := iff_of_false Bool.false_ne_true hnow
    handle := iff_of_false (fun hne => hne rfl) hnow
    calls := hcalls
    last := by rw [if_neg hnow]; exact hlast }

/-- A close that leaves an engine open leaves it without a connection. -/
theorem Linked.closesOnly_of_follows (h : s.Linked) {engine : Handle} {answers : TeardownAnswers}
    (hlegal : s.Legal rcm (.engineClose engine answers))
    (hfollows : (s.step rcm (.engineClose engine answers)).Follows) : s.opened = {engine} := by
  obtain ⟨t, hstep⟩ := Session.step_engineClose rcm s engine answers
  rw [hstep, h.deinit_engineClose hlegal] at hfollows
  have hnow : ¬(s.opened.erase engine).Nonempty :=
    fun hsome => absurd (hfollows.1.mpr hsome).1 Bool.false_ne_true
  rw [Finset.not_nonempty_iff_eq_empty, Finset.erase_eq_empty_iff] at hnow
  rcases hnow with hempty | honly
  · exact absurd hlegal.2 (hempty ▸ Finset.notMem_empty _)
  · exact honly

/-- Over any sequence of opens and closes, the connection follows the open
engines after every call exactly when every close closes the only open engine. -/
theorem follows_iff_closesOnly (rcm : Rcm σ) (t : σ) {calls : List Call}
    (run : Run (step rcm) (Legal rcm) (start t) calls) :
    (∀ pre, pre <+: calls → (final (step rcm) (start t) pre).Follows) ↔
      Run (step rcm) ClosesOnly (start t) calls := by
  apply run.forall_prefix_iff (linked_start t) fun _ h => h.follows
  · intro s call h hlegal honly
    cases call with
    | engineOpen name ec answers => exact h.step_engineOpen hlegal
    | engineClose engine answers => exact h.step_engineClose hlegal honly
  · intro s call h hlegal hfollows
    cases call with
    | engineOpen name ec answers => trivial
    | engineClose engine answers => exact h.closesOnly_of_follows hlegal hfollows

/-- An RCM client whose server numbers the engines it returns. -/
def numbering : Rcm Word where
  alloc _ _ n := (.ok ⟨0, fun _ => 0⟩, n)
  exec _ msg n := (.ok (), ⟨msg.fxnIdx, msg.data.put32 Remote.EngineOpenArgs.outEngine n⟩, n + 1)
  free _ _ n := n

/-- A set-up and a tear-down without failures. -/
def goodSetup : SetupAnswers := ⟨0, 7, .ok 1, fun _ => .ok 0⟩

def goodTeardown : TeardownAnswers := ⟨0, 0⟩

theorem goodSetup_succeed : goodSetup.Succeed :=
  ⟨rfl, ⟨1, by decide, rfl⟩, fun _ => ⟨0, rfl⟩⟩

theorem goodTeardown_succeed : goodTeardown.Succeed := ⟨rfl, rfl⟩

def open1 : Call := .engineOpen .empty true goodSetup

def close1 (engine : Handle) : Call := .engineClose engine goodTeardown

/-- Two engines are opened and both are closed. -/
def twoEngines : List Call := [open1, open1, close1 1, close1 2]

/-- The first close takes the connection away from the second engine, and the
second close tears it down once more. -/
theorem twoEngines_not_follows :
    Run (step numbering) (Legal numbering) (start 1) twoEngines ∧
      ¬(final (step numbering) (start 1) (twoEngines.take 3)).Follows ∧
      ¬Alternates (final (step numbering) (start 1) twoEngines).connection.calls := by
  refine ⟨⟨⟨goodSetup_succeed, 1, ?_⟩, ⟨goodSetup_succeed, 2, ?_⟩, ⟨goodTeardown_succeed, ?_⟩,
    ⟨goodTeardown_succeed, ?_⟩, trivial⟩, ?_, ?_⟩
  · decide +kernel
  · decide +kernel
  · decide +kernel
  · decide +kernel
  · intro hfollows
    exact absurd (hfollows.1.mpr (by decide +kernel)).1 (by decide +kernel)
  · unfold Alternates
    decide +kernel

theorem follows_iff_closesOnly_one :
    Run (step numbering) (Legal numbering) (start 1) [open1, close1 1, open1] ∧
      ∀ pre, pre <+: [open1, close1 1, open1] →
        (final (step numbering) (start 1) pre).Follows := by
  have run : Run (step numbering) (Legal numbering) (start 1) [open1, close1 1, open1] := by
    refine ⟨⟨goodSetup_succeed, 1, ?_⟩, ⟨goodTeardown_succeed, ?_⟩,
      ⟨goodSetup_succeed, 3, ?_⟩, trivial⟩
    · decide +kernel
    · decide +kernel
    · decide +kernel
  have honly : ((start 1).step numbering open1).opened = {1} := by decide +kernel
  exact ⟨run, (follows_iff_closesOnly numbering 1 run).mpr ⟨trivial, honly, trivial, trivial⟩⟩

end Session

end Libdce.Host
