import Libdce.Tracking.ClientTable

/-!
# Request handlers and crash cleanup

The bookkeeping side of the server's request handlers, and the callback that
releases what a dead client left behind. A server state pairs the table with
the list of release calls made into Codec Engine so far.

## Implementation notes

Codec Engine is not part of this code: what it answers to an open or a create
is an argument of the handler. The cleanup loops keep the slot they started
from, while every handler they call looks the slot up again by pid.
-/

namespace Libdce.Tracking

open Foundation.SlotArray

/-- A release call into Codec Engine: `Engine_close` or `VIDDEC3_delete`. -/
structure CeCall where
  kind : Kind
  handle : Handle
  deriving DecidableEq, Repr

/-- The table and the release calls made so far. -/
structure Server where
  clients : Clients
  calls : List CeCall

/-- `slpm_eventType`; only the obit of a process is told apart. -/
inductive SlpmEventType
  | procObit
  | other
  deriving DecidableEq, Repr

/-- The unregistration function of each kind. -/
def dceUnregister : Kind → Clients → Pid → Handle → Clients
  | .engine => dceUnregisterEngine
  | .codec => dceUnregisterCodec

/-- The common shape of the two releasing handlers: unregister, then release. -/
def rpcRelease (k : Kind) (s : Server) (pid : Pid) (h : Handle) : Server where
  clients := dceUnregister k s.clients pid h
  calls := s.calls ++ [⟨k, h⟩]

/-- `rpc_Engine_open`, given the engine that Codec Engine returned. -/
def rpcEngineOpen (s : Server) (pid : Pid) (engine : Handle) : Server :=
  if engine ≠ 0 then { s with clients := dceRegisterEngine s.clients pid engine } else s

/-- `rpc_Engine_close`. -/
def rpcEngineClose (s : Server) (pid : Pid) (engine : Handle) : Server :=
  rpcRelease .engine s pid engine

/-- `rpc_VIDDEC3_create`, given the codec that Codec Engine returned. -/
def rpcViddec3Create (s : Server) (pid : Pid) (codec : Handle) : Server :=
  if codec ≠ 0 then { s with clients := dceRegisterCodec s.clients pid codec } else s

/-- `rpc_VIDDEC3_delete`. -/
def rpcViddec3Delete (s : Server) (pid : Pid) (codec : Handle) : Server :=
  rpcRelease .codec s pid codec

/-- One round of a cleanup loop over the handle array of slot `c`. -/
def cleanupRound (k : Kind) (pid : Pid) (c : Fin 10) (s : Server) (i : Fin 10) : Server :=
  if (s.clients c).cells k i ≠ 0 then rpcRelease k s pid ((s.clients c).cells k i) else s

/-- `dce_cleanup_cb`: delete all codecs first and lastly close all engines. -/
def dceCleanupCb (s : Server) (evt : SlpmEventType) (pid : Pid) : Server :=
  match evt with
  | .procObit =>
      match getClient s.clients pid with
      | some c => sweep (cleanupRound .engine pid c) (sweep (cleanupRound .codec pid c) s)
      | none => s
  | .other => s

/-- The last statement of each unregistration function. -/
def Client.settle (c : Client) : Kind → Client
  | .engine => c.releaseIfUnused
  | .codec => c

namespace Client

variable (c : Client) (k : Kind)

@[simp] theorem settle_refs : (c.settle k).refs = c.refs := by
  cases k
  · exact releaseIfUnused_refs c
  · rfl

@[simp] theorem settle_cells (l : Kind) : (c.settle k).cells l = c.cells l := by
  cases k
  · exact releaseIfUnused_cells c l
  · rfl

theorem settle_pid :
    (c.settle k).pid = if k = .engine ∧ c.refs = 0 then 0 else c.pid := by
  cases k
  · simp [settle, releaseIfUnused_pid]
  · rfl

theorem settle_pid_or : (c.settle k).pid = c.pid ∨ (c.settle k).pid = 0 := by
  rw [settle_pid]
  split
  · exact Or.inr rfl
  · exact Or.inl rfl

@[ext] theorem ext_cells {c d : Client} (hpid : c.pid = d.pid) (hrefs : c.refs = d.refs)
    (hcells : ∀ k, c.cells k = d.cells k) : c = d := by
  cases c
  cases d
  cases hpid
  cases hrefs
  cases hcells .engine
  cases hcells .codec
  rfl

end Client

section Unregister

variable {t : Clients} {p : Pid} {i : Fin 10}

theorem dceUnregister_found (k : Kind) (h : Handle) (hi : getClient t p = some i) :
    dceUnregister k t p h = Function.update t i (((t i).drop k h).settle k) := by
  cases k
  · simp [dceUnregister, dceUnregisterEngine, hi, Client.settle]
  · simp [dceUnregister, dceUnregisterCodec, hi, Client.settle]

theorem dceUnregister_absent (k : Kind) (h : Handle) (hi : getClient t p = none) :
    dceUnregister k t p h = t := by
  cases k
  · simp [dceUnregister, dceUnregisterEngine, hi]
  · simp [dceUnregister, dceUnregisterCodec, hi]

theorem UniquePids.unregister (ht : UniquePids t) (k : Kind) (p : Pid) (h : Handle) :
    UniquePids (dceUnregister k t p h) := by
  cases hi : getClient t p with
  | none => rwa [dceUnregister_absent k h hi]
  | some i =>
      rw [dceUnregister_found k h hi]
      apply ht.update_of_pid
      simpa using ((t i).drop k h).settle_pid_or k

/-- After an unregistration the client keeps its slot or has none. -/
theorem getClient_unregister (ht : UniquePids t) (hp : p ≠ 0) (k : Kind) (h : Handle)
    (hi : getClient t p = some i) :
    getClient (dceUnregister k t p h) p = some i ∨ getClient (dceUnregister k t p h) p = none := by
  rw [dceUnregister_found k h hi]
  rcases ((t i).drop k h).settle_pid_or k with hpid | hpid
  · refine Or.inl (getClient_update_self hi ?_)
    rw [hpid, Client.drop_pid, pid_of_getClient hi]
  · exact Or.inr (ht.getClient_update_release hp hi (hpid ▸ hp.symm))

end Unregister

section Rounds

variable {k : Kind} {p : Pid} {c : Fin 10} {s₀ s : Server}

/-- What holds after `j` rounds of a cleanup loop, whatever the count says: the
calls made are the entries passed, in order, and the cells ahead are untouched.
The slot may have lost its pid on the way. -/
structure RoundInv (k : Kind) (p : Pid) (c : Fin 10) (s₀ : Server) (j : ℕ) (s : Server) :
    Prop where
  unique : UniquePids s.clients
  calls : s.calls = s₀.calls ++ (entriesBelow ((s₀.clients c).cells k) j).map (⟨k, ·⟩)
  ahead : ∀ i : Fin 10, j ≤ i → (s.clients c).cells k i = (s₀.clients c).cells k i
  otherKind : ∀ l ≠ k, (s.clients c).cells l = (s₀.clients c).cells l
  slot : getClient s.clients p = none ∨
    getClient s.clients p = some c ∧ ∀ i : Fin 10, i < j → (s.clients c).cells k i = 0

theorem RoundInv.start (hu : UniquePids s₀.clients)
    (hc : getClient s₀.clients p = none ∨ getClient s₀.clients p = some c) :
    RoundInv k p c s₀ 0 s₀ where
  unique := hu
  calls := by simp
  ahead := fun _ _ => rfl
  otherKind := fun _ _ => rfl
  slot := hc.imp_right fun h => ⟨h, fun i hi => absurd hi (Nat.not_lt_zero _)⟩

/-- A null cell is skipped. -/
theorem RoundInv.skip {i : Fin 10} (inv : RoundInv k p c s₀ i s)
    (hz : (s.clients c).cells k i = 0) : RoundInv k p c s₀ (i + 1) s := by
  have hz₀ : (s₀.clients c).cells k i = 0 := inv.ahead i le_rfl ▸ hz
  refine ⟨inv.unique, ?_, fun j hj => inv.ahead j (by omega), inv.otherKind, ?_⟩
  · rw [inv.calls, entriesBelow_succ, if_pos hz₀, List.append_nil]
  · refine inv.slot.imp_right fun ⟨hc, hclear⟩ => ⟨hc, fun j hj => ?_⟩
    rcases Nat.lt_succ_iff_lt_or_eq.mp hj with hj | hj
    · exact hclear j hj
    · rwa [Fin.ext hj]

/-- The call for the next cell. -/
theorem RoundInv.calls_rpcRelease {i : Fin 10} (inv : RoundInv k p c s₀ i s)
    (hz : (s.clients c).cells k i ≠ 0) :
    (rpcRelease k s p ((s.clients c).cells k i)).calls =
      s₀.calls ++ (entriesBelow ((s₀.clients c).cells k) (i + 1)).map (⟨k, ·⟩) := by
  have hi := inv.ahead i le_rfl
  rw [rpcRelease, inv.calls, entriesBelow_succ, if_neg (hi ▸ hz), hi]
  simp

/-- If the slot is no longer found, the call is made and the table stays. -/
theorem RoundInv.absent {i : Fin 10} (inv : RoundInv k p c s₀ i s)
    (hz : (s.clients c).cells k i ≠ 0) (hnone : getClient s.clients p = none) :
    RoundInv k p c s₀ (i + 1) (rpcRelease k s p ((s.clients c).cells k i)) := by
  have hsame : (rpcRelease k s p ((s.clients c).cells k i)).clients = s.clients :=
    dceUnregister_absent k _ hnone
  refine ⟨by rw [hsame]; exact inv.unique, inv.calls_rpcRelease hz, ?_, ?_,
    Or.inl (by rw [hsame]; exact hnone)⟩
  · rw [hsame]
    exact fun j hj => inv.ahead j (by omega)
  · rw [hsame]
    exact inv.otherKind

/-- Otherwise the handler clears the cell just reached: it is the first with its entry. -/
theorem RoundInv.found (hp : p ≠ 0) {i : Fin 10} (inv : RoundInv k p c s₀ i s)
    (hz : (s.clients c).cells k i ≠ 0) (hc : getClient s.clients p = some c)
    (hclear : ∀ j : Fin 10, j.val < i → (s.clients c).cells k j = 0) :
    RoundInv k p c s₀ (i + 1) (rpcRelease k s p ((s.clients c).cells k i)) := by
  have hclients : (rpcRelease k s p ((s.clients c).cells k i)).clients =
      Function.update s.clients c
        (((s.clients c).drop k ((s.clients c).cells k i)).settle k) :=
    dceUnregister_found k _ hc
  have hfirst : firstAt ((s.clients c).cells k) ((s.clients c).cells k i) = some i :=
    firstAt_eq_some_iff.mpr ⟨rfl, fun j hj heq => hz (heq ▸ hclear j hj)⟩
  have hcells : ((((s.clients c).drop k ((s.clients c).cells k i)).settle k).cells k) =
      Function.update ((s.clients c).cells k) i 0 := by
    rw [Client.settle_cells, Client.drop_cells, if_pos rfl, replaceFirst_of_firstAt hfirst]
  refine ⟨inv.unique.unregister k p _, inv.calls_rpcRelease hz, fun j hj => ?_, fun l hl => ?_, ?_⟩
  · have hne : j ≠ i := fun h => by subst j; omega
    rw [hclients, Function.update_self, hcells, Function.update_of_ne hne]
    exact inv.ahead j (by omega)
  · rw [hclients, Function.update_self, Client.settle_cells, Client.drop_cells, if_neg hl]
    exact inv.otherKind l hl
  · refine (getClient_unregister inv.unique hp k _ hc).symm.imp_right fun hfound =>
      ⟨hfound, fun j hj => ?_⟩
    rw [hclients, Function.update_self, hcells]
    by_cases hji : j = i
    · rw [hji, Function.update_self]
    · have hne : j.val ≠ i.val := fun h => hji (Fin.ext h)
      rw [Function.update_of_ne hji]
      exact hclear j (by omega)

theorem RoundInv.round (hp : p ≠ 0) (i : Fin 10) (inv : RoundInv k p c s₀ i s) :
    RoundInv k p c s₀ (i + 1) (cleanupRound k p c s i) := by
  by_cases hz : (s.clients c).cells k i = 0
  · rw [cleanupRound, if_neg (not_not.mpr hz)]
    exact inv.skip hz
  · rw [cleanupRound, if_pos hz]
    rcases inv.slot with hnone | ⟨hc, hclear⟩
    · exact inv.absent hz hnone
    · exact inv.found hp hz hc hclear

theorem sweep_roundInv (hp : p ≠ 0) (hu : UniquePids s₀.clients)
    (hc : getClient s₀.clients p = none ∨ getClient s₀.clients p = some c) :
    RoundInv k p c s₀ 10 (sweep (cleanupRound k p c) s₀) :=
  sweep_invariant (RoundInv.start hu hc) fun i _ inv => inv.round hp i

end Rounds

/-- The release calls owed to a slot: its codecs, then its engines. -/
def Client.releases (c : Client) : List CeCall :=
  (entries c.codecs).map (⟨.codec, ·⟩) ++ (entries c.engines).map (⟨.engine, ·⟩)

/-- The release calls owed to a client: those of its slot, none without one. -/
def obitCalls (t : Clients) (p : Pid) : List CeCall :=
  match getClient t p with
  | some c => (t c).releases
  | none => []

/-- Whatever the count of the slot says, the cleanup releases the codecs and
then the engines that the slot held when the obit arrived. -/
theorem dceCleanupCb_calls {s : Server} {p : Pid} (hp : p ≠ 0) (hu : UniquePids s.clients) :
    (dceCleanupCb s .procObit p).calls = s.calls ++ obitCalls s.clients p := by
  cases hc : getClient s.clients p with
  | none => simp [dceCleanupCb, obitCalls, hc]
  | some c =>
      have codecs := sweep_roundInv (k := .codec) hp hu (Or.inr hc)
      have engines := sweep_roundInv (k := .engine) hp codecs.unique
        (codecs.slot.imp_right And.left)
      have hkept := codecs.otherKind .engine (by decide)
      simp only [dceCleanupCb, obitCalls, hc, engines.calls, codecs.calls, hkept,
        entriesBelow_all, Client.releases, List.append_assoc]
      rfl

section Drain

/-- The slot after `j` rounds of a loop in which it keeps its pid until its last
entry is released. -/
def Client.cleared (c : Client) (k : Kind) (j : ℕ) : Client :=
  let passed := (entriesBelow (c.cells k) j).length
  { pid := if k = .engine ∧ passed ≠ 0 ∧ c.refs = BitVec.ofNat 32 passed then 0 else c.pid
    refs := c.refs - BitVec.ofNat 32 passed
    engines := if k = .engine then clearBelow c.engines j else c.engines
    codecs := if k = .codec then clearBelow c.codecs j else c.codecs }

/-- Releasing the entries of a kind one by one never brings the count to zero
before the last of them. -/
def Client.KeepsPid (c : Client) (k : Kind) : Prop :=
  k = .engine → c.refs = 0 ∨ (entries (c.cells k)).length ≤ c.refs.toNat

namespace Client

variable (c : Client) (k : Kind)

theorem cleared_cells (j : ℕ) (l : Kind) :
    (c.cleared k j).cells l = if l = k then clearBelow (c.cells k) j else c.cells l := by
  cases k <;> cases l <;> rfl

@[simp] theorem cleared_start : c.cleared k 0 = c := by
  apply Client.ext_cells
  · simp [cleared]
  · simp [cleared]
  · intro l
    rw [cleared_cells, clearBelow_zero]
    split
    · subst l
      rfl
    · rfl

theorem cleared_succ_of_free {i : Fin 10} (hi : c.cells k i = 0) :
    c.cleared k (i + 1) = c.cleared k i := by
  have hpassed : entriesBelow (c.cells k) (i + 1) = entriesBelow (c.cells k) i := by
    rw [entriesBelow_succ, if_pos hi, List.append_nil]
  apply Client.ext_cells
  · simp only [cleared, hpassed]
  · simp only [cleared, hpassed]
  · intro l
    simp only [cleared_cells, clearBelow_succ_of_free hi]

theorem length_entries_le : (entries (c.cells k)).length ≤ 10 :=
  card_occupied_le (c.cells k)

/-- Until the last entry is passed the slot still carries its pid. -/
theorem cleared_pid_of_ahead {c : Client} {k : Kind} {i : Fin 10} (hk : c.KeepsPid k)
    (hi : c.cells k i ≠ 0) : (c.cleared k i).pid = c.pid := by
  have hlt : (entriesBelow (c.cells k) i).length < (entries (c.cells k)).length := by
    have hle := length_entriesBelow_le (c.cells k) (i + 1)
    rw [entriesBelow_succ, if_neg hi, List.length_append, List.length_singleton] at hle
    exact hle
  have hten := c.length_entries_le k
  refine if_neg fun ⟨hengine, hpassed, hrefs⟩ => ?_
  have hnat : c.refs.toNat = (entriesBelow (c.cells k) i).length := by
    rw [hrefs, BitVec.toNat_ofNat]
    exact Nat.mod_eq_of_lt (by omega)
  rcases hk hengine with hzero | hle
  · rw [hzero] at hnat
    exact hpassed hnat.symm
  · omega

theorem drop_settle_cleared {c : Client} {k : Kind} {i : Fin 10} (hk : c.KeepsPid k)
    (hi : c.cells k i ≠ 0) :
    (((c.cleared k i).drop k (c.cells k i)).settle k) = c.cleared k (i + 1) := by
  have hpassed : (entriesBelow (c.cells k) (i + 1)).length =
      (entriesBelow (c.cells k) i).length + 1 := by
    rw [entriesBelow_succ, if_neg hi, List.length_append, List.length_singleton]
  have hrefs : (c.cleared k i).refs - 1 = (c.cleared k (i + 1)).refs := by
    simp only [cleared, hpassed, BitVec.ofNat_add]
    bv_omega
  apply Client.ext_cells
  · rw [settle_pid, drop_refs, drop_pid, hrefs, cleared_pid_of_ahead hk hi]
    simp only [cleared, hpassed, Word.sub_eq_zero_iff]
    simp
  · rw [settle_refs, drop_refs, hrefs]
  · intro l
    rw [settle_cells, drop_cells, cleared_cells, cleared_cells, cleared_cells, if_pos rfl,
      replaceFirst_clearBelow hi]
    split <;> rfl

end Client

/-- A cleanup loop over a slot that keeps its pid clears the whole array. -/
theorem sweep_clients {k : Kind} {p : Pid} {c : Fin 10} {s : Server}
    (hc : getClient s.clients p = some c) (hk : (s.clients c).KeepsPid k) :
    (sweep (cleanupRound k p c) s).clients =
      Function.update s.clients c ((s.clients c).cleared k 10) := by
  refine sweep_invariant (n := 10) (s := s) (f := cleanupRound k p c)
    (I := fun j s' => s'.clients = Function.update s.clients c ((s.clients c).cleared k j)) ?_ ?_
  · simp
  · intro i s' hs'
    have hcell : (s'.clients c).cells k i = (s.clients c).cells k i := by
      rw [hs', Function.update_self, Client.cleared_cells, if_pos rfl, clearBelow_self]
    by_cases hz : (s.clients c).cells k i = 0
    · rw [cleanupRound, hcell, if_neg (not_not.mpr hz), Client.cleared_succ_of_free _ _ hz, hs']
    · have hpid : ((s.clients c).cleared k i).pid = p :=
        (Client.cleared_pid_of_ahead hk hz).trans (pid_of_getClient hc)
      have hfound : getClient s'.clients p = some c := by
        rw [hs']
        exact getClient_update_self hc hpid
      rw [cleanupRound, hcell, if_pos hz]
      calc
        (rpcRelease k s' p ((s.clients c).cells k i)).clients =
            Function.update s'.clients c
              (((s'.clients c).drop k ((s.clients c).cells k i)).settle k) :=
          dceUnregister_found k _ hfound
        _ = Function.update s.clients c ((s.clients c).cleared k (i + 1)) := by
          rw [hs', Function.update_self, Function.update_idem, Client.drop_settle_cleared hk hz]

/-- A slot after its cleanup. -/
def Client.drained (c : Client) : Client := (c.cleared .codec 10).cleared .engine 10

/-- The cleanup of the slot never gives it up while it still holds an engine:
once the codecs are gone the count is zero or covers the engines. -/
def Client.DrainsClean (c : Client) : Prop :=
  let refs := c.refs - BitVec.ofNat 32 (entries c.codecs).length
  refs = 0 ∨ (entries c.engines).length ≤ refs.toNat

namespace Client

variable {c : Client}

theorem drainsClean_iff : c.DrainsClean ↔ (c.cleared .codec 10).KeepsPid .engine := by
  simp [DrainsClean, KeepsPid, cleared, cells, entriesBelow_all]

@[simp] theorem drained_cells (k : Kind) : c.drained.cells k = 0 := by
  cases k <;> simp [drained, cleared_cells, clearBelow_all]

theorem drained_refs : c.drained.refs =
    c.refs - BitVec.ofNat 32 (entries c.codecs).length -
      BitVec.ofNat 32 (entries c.engines).length := by
  simp only [drained, cleared, cells, entriesBelow_all]
  rfl

theorem drained_pid : c.drained.pid =
    if entries c.engines ≠ [] ∧ c.drained.refs = 0 then 0 else c.pid := by
  simp only [drained_refs, Word.sub_eq_zero_iff]
  simp [drained, cleared, cells, entriesBelow_all]

theorem drained_pid_or : c.drained.pid = c.pid ∨ c.drained.pid = 0 := by
  rw [drained_pid]
  split
  · exact Or.inr rfl
  · exact Or.inl rfl

end Client

/-- The table after the cleanup of a slot that drains clean. -/
theorem dceCleanupCb_clients {s : Server} {p : Pid} {c : Fin 10}
    (hc : getClient s.clients p = some c) (hclean : (s.clients c).DrainsClean) :
    (dceCleanupCb s .procObit p).clients =
      Function.update s.clients c (s.clients c).drained := by
  have hcodecs : (sweep (cleanupRound .codec p c) s).clients =
      Function.update s.clients c ((s.clients c).cleared .codec 10) :=
    sweep_clients hc fun h => Kind.noConfusion h
  have hpid : ((s.clients c).cleared .codec 10).pid = p := by
    simpa [Client.cleared] using pid_of_getClient hc
  have hfound : getClient (sweep (cleanupRound .codec p c) s).clients p = some c := by
    rw [hcodecs]
    exact getClient_update_self hc hpid
  have hkeeps : ((sweep (cleanupRound .codec p c) s).clients c).KeepsPid .engine := by
    rw [hcodecs, Function.update_self]
    exact Client.drainsClean_iff.mp hclean
  calc
    (dceCleanupCb s .procObit p).clients =
        (sweep (cleanupRound .engine p c) (sweep (cleanupRound .codec p c) s)).clients := by
      simp only [dceCleanupCb, hc]
    _ = Function.update (sweep (cleanupRound .codec p c) s).clients c
          (((sweep (cleanupRound .codec p c) s).clients c).cleared .engine 10) :=
      sweep_clients hfound hkeeps
    _ = Function.update s.clients c (s.clients c).drained := by
      rw [hcodecs, Function.update_self, Function.update_idem]
      rfl

theorem dceCleanupCb_absent {s : Server} {p : Pid} (hc : getClient s.clients p = none) :
    dceCleanupCb s .procObit p = s := by
  simp only [dceCleanupCb, hc]

end Drain

end Libdce.Tracking
