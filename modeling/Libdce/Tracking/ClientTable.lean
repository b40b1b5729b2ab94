import Libdce.Basic
import Libdce.Foundation.SlotArray

/-!
# The table of clients

`clients` records, for each client process, which engines and codecs it holds,
so that they can be released when the process dies. A slot whose `pid` is zero
is unused.

## Implementation notes

`Client *` pointers returned by `get_client` are indices of the table. `refs`
is a 32-bit word, so it wraps where the C counter would overflow.
-/

namespace Libdce.Tracking

open Foundation.SlotArray

/-- The two kinds of Codec Engine object that are tracked. -/
inductive Kind
  | engine
  | codec
  deriving DecidableEq, Repr

/-- A reducible property of kinds is decidable when it is for both. -/
@[reducible] protected def Kind.decidable {P : Kind → Prop} [Decidable (P .engine)]
    [Decidable (P .codec)] : DecidablePred P
  | .engine | .codec => inferInstance

/-- One slot of the table. -/
structure Client where
  pid : Pid
  refs : Word
  engines : Fin 10 → Handle
  codecs : Fin 10 → Handle

/-- The table and its arrays have a first element. -/
instance neZeroTen : NeZero 10 := ⟨by decide⟩

/-- `clients[10]`. -/
abbrev Clients := Fin 10 → Client

/-- The static initialiser `{0}`. -/
def Clients.zero : Clients := fun _ => ⟨0, 0, 0, 0⟩

/-- `get_client`: the first slot that carries `pid`. -/
@[irreducible] def getClient (clients : Clients) (pid : Pid) : Option (Fin 10) :=
  Fin.find? fun i => (clients i).pid = pid

namespace Client

/-- The handle array of a kind. -/
def cells (c : Client) : Kind → Fin 10 → Handle
  | .engine => c.engines
  | .codec => c.codecs

/-- The part common to both registration functions: count the handle and write
it into the first null cell, if there is one. -/
def store (c : Client) : Kind → Handle → Client
  | .engine, h => { c with refs := c.refs + 1, engines := replaceFirst c.engines 0 h }
  | .codec, h => { c with refs := c.refs + 1, codecs := replaceFirst c.codecs 0 h }

/-- The part common to both unregistration functions: clear the first cell that
holds the handle, if one does, and decrement the count in any case. -/
def drop (c : Client) : Kind → Handle → Client
  | .engine, h => { c with refs := c.refs - 1, engines := replaceFirst c.engines h 0 }
  | .codec, h => { c with refs := c.refs - 1, codecs := replaceFirst c.codecs h 0 }

/-- `if (! c->refs) c->pid = 0`. -/
def releaseIfUnused (c : Client) : Client := if c.refs = 0 then { c with pid := 0 } else c

/-- Taking over an unused slot: only `pid`, `refs` and `engines[0]` are written. -/
def occupy (c : Client) (pid : Pid) (engine : Handle) : Client :=
  { c with pid := pid, refs := 1, engines := Function.update c.engines 0 engine }

end Client

/-- `dce_register_engine`. A client without a slot takes an unused one; when
there is none ("too many clients") the handle is not recorded. -/
def dceRegisterEngine (clients : Clients) (pid : Pid) (engine : Handle) : Clients :=
  match getClient clients pid with
  | some c => Function.update clients c ((clients c).store .engine engine)
  | none =>
      match getClient clients 0 with
      | some c => Function.update clients c ((clients c).occupy pid engine)
      | none => clients

/-- `dce_unregister_engine`. The slot is given up when the count reaches zero. -/
def dceUnregisterEngine (clients : Clients) (pid : Pid) (engine : Handle) : Clients :=
  match getClient clients pid with
  | some c => Function.update clients c ((clients c).drop .engine engine).releaseIfUnused
  | none => clients

/-- `dce_register_codec`. A client without a slot is not given one. -/
def dceRegisterCodec (clients : Clients) (pid : Pid) (codec : Handle) : Clients :=
  match getClient clients pid with
  | some c => Function.update clients c ((clients c).store .codec codec)
  | none => clients

/-- `dce_unregister_codec`. The slot is kept even when the count reaches zero. -/
def dceUnregisterCodec (clients : Clients) (pid : Pid) (codec : Handle) : Clients :=
  match getClient clients pid with
  | some c => Function.update clients c ((clients c).drop .codec codec)
  | none => clients

section Lookup

variable {t : Clients} {p q : Pid} {i : Fin 10} {c : Client}

theorem getClient_eq_some_iff :
    getClient t p = some i ↔ (t i).pid = p ∧ ∀ j < i, (t j).pid ≠ p := by
  simp [getClient]

theorem getClient_eq_none_iff : getClient t p = none ↔ ∀ i, (t i).pid ≠ p := by
  simp [getClient]

theorem pid_of_getClient (h : getClient t p = some i) : (t i).pid = p :=
  (getClient_eq_some_iff.mp h).1

/-- A lookup depends only on which slots carry the pid. -/
theorem getClient_congr {t' : Clients} (h : ∀ j, (t' j).pid = q ↔ (t j).pid = q) :
    getClient t' q = getClient t q := by
  unfold getClient
  congr 1
  funext j
  simp only [h j]

theorem getClient_update_of_ne (hold : (t i).pid ≠ q) (hnew : c.pid ≠ q) :
    getClient (Function.update t i c) q = getClient t q := by
  refine getClient_congr fun j => ?_
  by_cases hj : j = i
  · subst j
    simp [hold, hnew]
  · simp [hj]

theorem getClient_update_self (h : getClient t p = some i) (hc : c.pid = p) :
    getClient (Function.update t i c) p = some i := by
  rw [← h]
  refine getClient_congr fun j => ?_
  by_cases hj : j = i
  · subst j
    simp [hc, pid_of_getClient h]
  · simp [hj]

theorem getClient_update_fresh (h : getClient t p = none) (hc : c.pid = p) :
    getClient (Function.update t i c) p = some i := by
  rw [getClient_eq_none_iff] at h
  rw [getClient_eq_some_iff]
  refine ⟨by simpa using hc, fun j hj => ?_⟩
  rw [Function.update_of_ne hj.ne]
  exact h j

end Lookup

/-- At most one slot carries a given non-zero pid. -/
def UniquePids (t : Clients) : Prop :=
  ∀ i j, (t i).pid ≠ 0 → (t i).pid = (t j).pid → i = j

section Unique

variable {t : Clients} {p : Pid} {i : Fin 10} {c : Client}

theorem uniquePids_zero : UniquePids Clients.zero :=
  fun _ _ h => absurd rfl h

theorem UniquePids.getClient_pid (h : UniquePids t) (hi : (t i).pid ≠ 0) :
    getClient t (t i).pid = some i := by
  refine getClient_eq_some_iff.mpr ⟨rfl, fun j hj heq => ?_⟩
  exact hj.ne (h i j hi heq.symm).symm

theorem UniquePids.getClient_update_release (h : UniquePids t) (hp : p ≠ 0)
    (hi : getClient t p = some i) (hc : c.pid ≠ p) :
    getClient (Function.update t i c) p = none := by
  refine getClient_eq_none_iff.mpr fun j => ?_
  by_cases hj : j = i
  · subst j
    simpa using hc
  · rw [Function.update_of_ne hj]
    intro heq
    have hpid := pid_of_getClient hi
    exact hj (h j i (heq ▸ hp) (heq.trans hpid.symm))

/-- A slot may keep its pid or give it up. -/
theorem UniquePids.update_of_pid (h : UniquePids t) (hc : c.pid = (t i).pid ∨ c.pid = 0) :
    UniquePids (Function.update t i c) := by
  intro j k hj hjk
  by_cases hji : j = i <;> by_cases hki : k = i
  · rw [hji, hki]
  · subst j
    rw [Function.update_self] at hj hjk
    rw [Function.update_of_ne hki] at hjk
    have hci := hc.resolve_right hj
    exact h i k (hci ▸ hj) (hci ▸ hjk)
  · subst k
    rw [Function.update_of_ne hji] at hj hjk
    rw [Function.update_self] at hjk
    have hci := hc.resolve_right (hjk ▸ hj)
    exact h j i hj (hjk.trans hci)
  · rw [Function.update_of_ne hji] at hj hjk
    rw [Function.update_of_ne hki] at hjk
    exact h j k hj hjk

/-- A slot may be given to a client that has none. -/
theorem UniquePids.update_fresh (h : UniquePids t) (hnone : getClient t p = none)
    (hc : c.pid = p) : UniquePids (Function.update t i c) := by
  rw [getClient_eq_none_iff] at hnone
  intro j k hj hjk
  by_cases hji : j = i <;> by_cases hki : k = i
  · rw [hji, hki]
  · subst j
    rw [Function.update_self, Function.update_of_ne hki, hc] at hjk
    exact absurd hjk.symm (hnone k)
  · subst k
    rw [Function.update_of_ne hji, Function.update_self, hc] at hjk
    exact absurd hjk (hnone j)
  · rw [Function.update_of_ne hji] at hj hjk
    rw [Function.update_of_ne hki] at hjk
    exact h j k hj hjk

end Unique

/-- The slot that a change for client `p` may write: its own, or an unused one
if it has none. -/
def SlotFor (t : Clients) (p : Pid) (i : Fin 10) : Prop :=
  getClient t p = some i ∨ getClient t p = none ∧ (t i).pid = 0

namespace SlotFor

variable {t : Clients} {p q : Pid} {i j : Fin 10} {c : Client}

theorem pid_or (h : SlotFor t p i) : (t i).pid = p ∨ (t i).pid = 0 :=
  h.imp pid_of_getClient And.right

/-- No other slot carries the pid. -/
theorem elsewhere (h : SlotFor t p i) (ht : UniquePids t) (hp : p ≠ 0) (hj : j ≠ i) :
    (t j).pid ≠ p := by
  intro heq
  rcases h with hfound | ⟨hnone, _⟩
  · exact hj (ht j i (heq ▸ hp) (heq.trans (pid_of_getClient hfound).symm))
  · exact getClient_eq_none_iff.mp hnone j heq

theorem uniquePids (h : SlotFor t p i) (ht : UniquePids t) (hc : c.pid = p ∨ c.pid = 0) :
    UniquePids (Function.update t i c) := by
  rcases h with hfound | ⟨hnone, _⟩
  · exact ht.update_of_pid (by rwa [pid_of_getClient hfound])
  · rcases hc with hpid | hpid
    · exact ht.update_fresh hnone hpid
    · exact ht.update_of_pid (Or.inr hpid)

theorem getClient_kept (h : SlotFor t p i) (hc : c.pid = p) :
    getClient (Function.update t i c) p = some i := by
  rcases h with hfound | ⟨hnone, _⟩
  · exact getClient_update_self hfound hc
  · exact getClient_update_fresh hnone hc

theorem getClient_freed (h : SlotFor t p i) (ht : UniquePids t) (hp : p ≠ 0) (hc : c.pid = 0) :
    getClient (Function.update t i c) p = none := by
  refine getClient_eq_none_iff.mpr fun j => ?_
  by_cases hj : j = i
  · subst j
    rw [Function.update_self, hc]
    exact hp.symm
  · rw [Function.update_of_ne hj]
    exact h.elsewhere ht hp hj

theorem getClient_other (h : SlotFor t p i) (hc : c.pid = p ∨ c.pid = 0) (hq : q ≠ p)
    (hq0 : q ≠ 0) : getClient (Function.update t i c) q = getClient t q := by
  apply getClient_update_of_ne
  · exact fun heq => h.pid_or.elim (fun hpid => hq (heq.symm.trans hpid))
      fun hpid => hq0 (heq.symm.trans hpid)
  · exact fun heq => hc.elim (fun hpid => hq (heq.symm.trans hpid))
      fun hpid => hq0 (heq.symm.trans hpid)

end SlotFor

namespace Client

variable (c : Client) (k : Kind) (h : Handle)

@[simp] theorem store_pid : (c.store k h).pid = c.pid := by cases k <;> rfl

@[simp] theorem store_refs : (c.store k h).refs = c.refs + 1 := by cases k <;> rfl

theorem store_cells (l : Kind) :
    (c.store k h).cells l = if l = k then replaceFirst (c.cells k) 0 h else c.cells l := by
  cases k <;> cases l <;> rfl

@[simp] theorem drop_pid : (c.drop k h).pid = c.pid := by cases k <;> rfl

@[simp] theorem drop_refs : (c.drop k h).refs = c.refs - 1 := by cases k <;> rfl

theorem drop_cells (l : Kind) :
    (c.drop k h).cells l = if l = k then replaceFirst (c.cells k) h 0 else c.cells l := by
  cases k <;> cases l <;> rfl

theorem releaseIfUnused_pid :
    c.releaseIfUnused.pid = if c.refs = 0 then 0 else c.pid := by
  unfold releaseIfUnused
  split <;> rfl

@[simp] theorem releaseIfUnused_refs : c.releaseIfUnused.refs = c.refs := by
  unfold releaseIfUnused
  split <;> rfl

@[simp] theorem releaseIfUnused_cells : c.releaseIfUnused.cells k = c.cells k := by
  unfold releaseIfUnused
  split <;> cases k <;> rfl

@[simp] theorem occupy_pid (p : Pid) : (c.occupy p h).pid = p := rfl

@[simp] theorem occupy_refs (p : Pid) : (c.occupy p h).refs = 1 := rfl

theorem occupy_cells (p : Pid) (l : Kind) :
    (c.occupy p h).cells l =
      if l = .engine then Function.update (c.cells .engine) 0 h else c.cells l := by
  cases l <;> rfl

end Client

end Libdce.Tracking
