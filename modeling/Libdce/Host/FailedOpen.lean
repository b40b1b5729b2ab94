import Libdce.Host.Stubs

/-!
# A failed `Engine_open`

`Engine_open` counts itself in before it knows whether it will succeed, and none
of its failure paths counts it out again. A failed call therefore leaves the
connection as it was only where `init` had nothing to do.
-/

namespace Libdce.Host

open Foundation.Bytes

variable {σ : Type*}

/-- The count, the handle, IPC and the RCM client are the same. -/
def Connection.SameLink (c c' : Connection) : Prop :=
  c'.count = c.count ∧ c'.handle = c.handle ∧ c'.ipcUp = c.ipcUp ∧ c'.rcmClient = c.rcmClient

section Count

variable (answers : SetupAnswers)

theorem count_setupFxns (fs : List Fxn) (c : Connection) :
    (setupFxns answers fs c).2.count = c.count := by
  induction fs generalizing c with
  | nil => rfl
  | cons f fs ih =>
      simp only [setupFxns]
      split
      · rfl
      · rw [ih]

theorem count_dceInit (c : Connection) : (dceInit answers c).2.count = c.count := by
  unfold dceInit
  split
  · rfl
  · rw [count_setupFxns]

/-- Whatever the platform answers, a count that is not positive goes up. -/
theorem count_init (c : Connection) :
    (init answers c).count = if (0 : Word).slt c.count then c.count else c.count + 1 := by
  unfold init
  split
  · rfl
  · rw [count_dceInit]

end Count

/-- Wherever `Engine_open` fails, and also where it does not, the connection is as it was
before the call exactly when the count was positive already. -/
theorem failed_open_restores_iff (rcm : Rcm σ) (answers : SetupAnswers) (name : CString) (ec : Bool)
    (c : Connection) (s : σ) :
    c.SameLink (engineOpen rcm answers name ec c s).2.1 ↔ (0 : Word).slt c.count = true := by
  rw [engineOpen_connection]
  constructor
  · rintro ⟨hcount, -⟩
    rw [count_init] at hcount
    split at hcount
    · next hpos => exact hpos
    · bv_omega
  · intro hpos
    rw [init_of_pos hpos]
    exact ⟨rfl, rfl, rfl, rfl⟩

/-- An RCM client that allocates no message. -/
def exhausted : Rcm Unit where
  alloc _ _ s := (.error (-1), s)
  exec _ msg s := (.error (-1), msg, s)
  free _ _ s := s

/-- IPC comes up, but there is no server to connect to. -/
def noServer : SetupAnswers := ⟨0, 7, .error (-1), fun _ => .error (-1)⟩

/-- The server is there and knows all functions. -/
def serverUp : SetupAnswers := ⟨0, 7, .ok 1, fun _ => .ok 0⟩

/-- With no server there yet, a first `Engine_open` fails and leaves IPC up and the
count at one; once the server is there a second call does not set the connection
up. With a server but no message the whole connection is left up. -/
theorem failed_open_leaves_connection :
    let name : CString := ⟨[], List.not_mem_nil⟩
    let noLink := engineOpen exhausted noServer name true Connection.zero ()
    let noMessage := engineOpen exhausted serverUp name true Connection.zero ()
    noLink.1.value = some 0 ∧ ¬Connection.zero.SameLink noLink.2.1 ∧
      noLink.2.1.count = 1 ∧ noLink.2.1.ipcUp = true ∧ noLink.2.1.handle = 0 ∧
      (engineOpen exhausted serverUp name true noLink.2.1 ()).2.1.handle = 0 ∧
    noMessage.1.value = some 0 ∧ ¬Connection.zero.SameLink noMessage.2.1 ∧
      noMessage.2.1.handle = 1 ∧ noMessage.2.1.rcmClient = true := by
  unfold Connection.SameLink
  decide +kernel

end Libdce.Host
