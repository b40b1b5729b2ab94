import Libdce.Tracking.Isolation

/-!
# What Codec Engine has open, and for whom

The ledger is the abstract counterpart of the table: the engines and codecs
that are open, each with the client it was returned to. It follows the calls
that actually reach Codec Engine, so a handle closed by a cleanup leaves the
ledger whoever owned it. A world runs the server and the ledger side by side.
-/

namespace Libdce.Tracking

open Foundation.SlotArray Foundation.GuardedRuns

/-- An open engine or codec and the client it was returned to. -/
structure Holding where
  kind : Kind
  owner : Pid
  handle : Handle
  deriving DecidableEq, Repr

/-- The open objects, and for each open codec the engine it was created on as
long as that engine is open. -/
structure Ledger where
  opened : Finset Holding
  home : Finset (Handle × Handle)

namespace Ledger

/-- Nothing is open. -/
def empty : Ledger := ⟨∅, ∅⟩

/-- Some client has the handle open. -/
def IsOpen (l : Ledger) (k : Kind) (h : Handle) : Prop :=
  ∃ x ∈ l.opened, x.kind = k ∧ x.handle = h

instance (l : Ledger) (k : Kind) (h : Handle) : Decidable (l.IsOpen k h) :=
  inferInstanceAs (Decidable (∃ x ∈ l.opened, x.kind = k ∧ x.handle = h))

/-- The handles of a kind that a client has open. -/
def held (l : Ledger) (k : Kind) (p : Pid) : Finset Handle :=
  (l.opened.filter fun x => x.kind = k ∧ x.owner = p).image Holding.handle

/-- A new engine or codec; the null handle means that there is none. -/
def grant (l : Ledger) : Event → Ledger
  | .engineOpen pid engine =>
      if engine = 0 then l else { l with opened := insert ⟨.engine, pid, engine⟩ l.opened }
  | .viddec3Create pid engine codec =>
      if codec = 0 then l
      else ⟨insert ⟨.codec, pid, codec⟩ l.opened, insert (codec, engine) l.home⟩
  | _ => l

/-- The release call takes the object away from whoever has it. -/
def release (l : Ledger) (call : CeCall) : Ledger where
  opened := l.opened.filter fun x => ¬(x.kind = call.kind ∧ x.handle = call.handle)
  home := l.home.filter fun x =>
    ¬(call = ⟨.codec, x.1⟩ ∨ call = ⟨.engine, x.2⟩)

/-- Release calls in order. -/
def releaseAll (l : Ledger) (calls : List CeCall) : Ledger := calls.foldl release l

/-- An object has one owner. -/
def OneOwner (l : Ledger) : Prop :=
  ∀ x ∈ l.opened, ∀ y ∈ l.opened, x.kind = y.kind → x.handle = y.handle → x = y

variable {l : Ledger} {k k' : Kind} {p q : Pid} {h h' : Handle}

@[simp] theorem mem_held : h ∈ l.held k p ↔ ⟨k, p, h⟩ ∈ l.opened := by
  constructor
  · intro hmem
    obtain ⟨⟨k₀, p₀, h₀⟩, hx, rfl⟩ := Finset.mem_image.mp hmem
    obtain ⟨hopen, rfl, rfl⟩ := Finset.mem_filter.mp hx
    exact hopen
  · intro hmem
    exact Finset.mem_image.mpr ⟨_, Finset.mem_filter.mpr ⟨hmem, rfl, rfl⟩, rfl⟩

theorem isOpen_of_mem (hmem : ⟨k, p, h⟩ ∈ l.opened) : l.IsOpen k h := ⟨_, hmem, rfl, rfl⟩

theorem OneOwner.owner_eq (hl : l.OneOwner) (hp : ⟨k, p, h⟩ ∈ l.opened)
    (hq : ⟨k, q, h⟩ ∈ l.opened) : p = q :=
  congrArg Holding.owner (hl _ hp _ hq rfl rfl)

theorem mem_grant_engineOpen {pid : Pid} {engine : Handle} {x : Holding} :
    x ∈ (l.grant (.engineOpen pid engine)).opened ↔
      x ∈ l.opened ∨ engine ≠ 0 ∧ x = ⟨.engine, pid, engine⟩ := by
  by_cases hnull : engine = 0
  · rw [grant, if_pos hnull]
    exact (or_iff_left fun hnew => hnew.1 hnull).symm
  · rw [grant, if_neg hnull, Finset.mem_insert, or_comm, and_iff_right hnull]

theorem mem_grant_viddec3Create {pid : Pid} {engine codec : Handle} {x : Holding} :
    x ∈ (l.grant (.viddec3Create pid engine codec)).opened ↔
      x ∈ l.opened ∨ codec ≠ 0 ∧ x = ⟨.codec, pid, codec⟩ := by
  by_cases hnull : codec = 0
  · rw [grant, if_pos hnull]
    exact (or_iff_left fun hnew => hnew.1 hnull).symm
  · rw [grant, if_neg hnull, Finset.mem_insert, or_comm, and_iff_right hnull]

theorem home_grant_engineOpen (l : Ledger) (pid : Pid) (engine : Handle) :
    (l.grant (.engineOpen pid engine)).home = l.home := by
  rw [grant]
  split <;> rfl

theorem mem_home_grant_viddec3Create {pid : Pid} {engine codec : Handle} {x : Handle × Handle} :
    x ∈ (l.grant (.viddec3Create pid engine codec)).home ↔
      x ∈ l.home ∨ codec ≠ 0 ∧ x = (codec, engine) := by
  by_cases hnull : codec = 0
  · rw [grant, if_pos hnull]
    exact (or_iff_left fun hnew => hnew.1 hnull).symm
  · rw [grant, if_neg hnull, Finset.mem_insert, or_comm, and_iff_right hnull]

@[simp] theorem mem_release {call : CeCall} {x : Holding} :
    x ∈ (l.release call).opened ↔
      x ∈ l.opened ∧ ¬(x.kind = call.kind ∧ x.handle = call.handle) := by
  simp [release]

theorem held_release (call : CeCall) :
    (l.release call).held k p =
      if k = call.kind then (l.held k p).erase call.handle else l.held k p := by
  ext h
  by_cases hk : k = call.kind
  · simp [hk, and_comm]
  · simp [hk]

theorem OneOwner.held_release_other (hl : l.OneOwner) (hmem : ⟨k, p, h⟩ ∈ l.opened)
    (hq : q ≠ p) (k' : Kind) : (l.release ⟨k, h⟩).held k' q = l.held k' q := by
  rw [held_release]
  split
  · rename_i hk
    subst k'
    exact Finset.erase_eq_of_notMem fun hqh => hq (hl.owner_eq (mem_held.mp hqh) hmem)
  · rfl

theorem mem_releaseAll {calls : List CeCall} {x : Holding} :
    x ∈ (l.releaseAll calls).opened ↔ x ∈ l.opened ∧ ⟨x.kind, x.handle⟩ ∉ calls := by
  induction calls generalizing l with
  | nil => simp [releaseAll]
  | cons call calls ih =>
      have hcall : (⟨x.kind, x.handle⟩ : CeCall) = call ↔
          x.kind = call.kind ∧ x.handle = call.handle := by
        cases call
        simp
      calc
        x ∈ (l.releaseAll (call :: calls)).opened ↔
            x ∈ (l.release call).opened ∧ ⟨x.kind, x.handle⟩ ∉ calls := ih
        _ ↔ x ∈ l.opened ∧ ¬(⟨x.kind, x.handle⟩ : CeCall) = call ∧
            ⟨x.kind, x.handle⟩ ∉ calls := by rw [mem_release, hcall, and_assoc]
        _ ↔ x ∈ l.opened ∧ ⟨x.kind, x.handle⟩ ∉ call :: calls := by rw [List.mem_cons, not_or]

@[simp] theorem mem_home_release {call : CeCall} {x : Handle × Handle} :
    x ∈ (l.release call).home ↔
      x ∈ l.home ∧ call ≠ ⟨.codec, x.1⟩ ∧ call ≠ ⟨.engine, x.2⟩ := by
  simp [release]

/-- A codec stays with its engine as long as neither is released. -/
theorem mem_home_releaseAll {calls : List CeCall} {x : Handle × Handle} :
    x ∈ (l.releaseAll calls).home ↔
      x ∈ l.home ∧ ⟨.codec, x.1⟩ ∉ calls ∧ ⟨.engine, x.2⟩ ∉ calls := by
  induction calls generalizing l with
  | nil => simp [releaseAll]
  | cons call calls ih =>
      calc
        x ∈ (l.releaseAll (call :: calls)).home ↔
            x ∈ (l.release call).home ∧ ⟨.codec, x.1⟩ ∉ calls ∧ ⟨.engine, x.2⟩ ∉ calls := ih
        _ ↔ (x ∈ l.home ∧ call ≠ ⟨.codec, x.1⟩ ∧ call ≠ ⟨.engine, x.2⟩) ∧
            ⟨.codec, x.1⟩ ∉ calls ∧ ⟨.engine, x.2⟩ ∉ calls := by rw [mem_home_release]
        _ ↔ x ∈ l.home ∧ ⟨.codec, x.1⟩ ∉ call :: calls ∧ ⟨.engine, x.2⟩ ∉ call :: calls := by
          rw [List.mem_cons, List.mem_cons, not_or, not_or, eq_comm, eq_comm (b := call)]
          tauto

/-- A client none of whose handles is released keeps them all. -/
theorem held_releaseAll_of_disjoint {calls : List CeCall}
    (hdisj : ∀ h ∈ l.held k p, ⟨k, h⟩ ∉ calls) : (l.releaseAll calls).held k p = l.held k p := by
  ext h
  rw [mem_held, mem_releaseAll, mem_held]
  exact ⟨And.left, fun hmem => ⟨hmem, hdisj h (mem_held.mpr hmem)⟩⟩

/-- A client all of whose handles are released has none left. -/
theorem held_releaseAll_of_subset {calls : List CeCall}
    (hsub : ∀ h ∈ l.held k p, ⟨k, h⟩ ∈ calls) : (l.releaseAll calls).held k p = ∅ := by
  ext h
  rw [mem_held, mem_releaseAll]
  simp only [Finset.notMem_empty, iff_false, not_and, not_not]
  exact fun hmem => hsub h (mem_held.mpr hmem)

theorem OneOwner.release (hl : l.OneOwner) (call : CeCall) : (l.release call).OneOwner := by
  intro x hx y hy
  exact hl x (mem_release.mp hx).1 y (mem_release.mp hy).1

theorem OneOwner.releaseAll (hl : l.OneOwner) (calls : List CeCall) :
    (l.releaseAll calls).OneOwner := by
  intro x hx y hy
  exact hl x (mem_releaseAll.mp hx).1 y (mem_releaseAll.mp hy).1

theorem oneOwner_empty : empty.OneOwner := fun _ hx => absurd hx (Finset.notMem_empty _)

theorem held_insert (l : Ledger) (k : Kind) (p : Pid) (h : Handle)
    (home : Finset (Handle × Handle)) (k' : Kind) (q : Pid) :
    Ledger.held ⟨insert ⟨k, p, h⟩ l.opened, home⟩ k' q =
      if k' = k ∧ q = p then insert h (l.held k p) else l.held k' q := by
  ext x
  split
  · rename_i heq
    obtain ⟨rfl, rfl⟩ := heq
    simp
  · rename_i hne
    simp only [mem_held, Finset.mem_insert, Holding.mk.injEq, or_iff_right_iff_imp]
    exact fun heq => absurd ⟨heq.1, heq.2.1⟩ hne

theorem OneOwner.insert (hl : l.OneOwner) (hfresh : ¬l.IsOpen k h) (home : Finset (Handle × Handle)) :
    Ledger.OneOwner ⟨insert ⟨k, p, h⟩ l.opened, home⟩ := by
  intro x hx y hy hkind hhandle
  rcases Finset.mem_insert.mp hx with rfl | hx <;> rcases Finset.mem_insert.mp hy with rfl | hy
  · rfl
  · exact absurd ⟨y, hy, hkind.symm, hhandle.symm⟩ hfresh
  · exact absurd ⟨x, hx, hkind, hhandle⟩ hfresh
  · exact hl x hx y hy hkind hhandle

end Ledger

/-- The server's table, the ledger, and the processes whose obit was handled. -/
structure World where
  clients : Clients
  ledger : Ledger
  buried : Finset Pid

namespace World

/-- Nothing has happened yet. -/
def zero : World := ⟨Clients.zero, Ledger.empty, ∅⟩

/-- The server handles an event; the ledger records what Codec Engine granted
and what the server released. -/
def step (w : World) (ev : Event) : World where
  clients := (Server.serve ⟨w.clients, []⟩ ev).clients
  ledger := (w.ledger.grant ev).releaseAll (Server.serve ⟨w.clients, []⟩ ev).calls
  buried := match ev with
    | .obit pid => insert pid w.buried
    | _ => w.buried

variable (w : World) (pid : Pid)

/-- An open or a create that Codec Engine refuses changes nothing. -/
theorem step_engineOpen_null : w.step (.engineOpen pid 0) = w := rfl

theorem step_viddec3Create_null (engine : Handle) :
    w.step (.viddec3Create pid engine 0) = w := rfl

theorem step_engineOpen {engine : Handle} (h : engine ≠ 0) :
    w.step (.engineOpen pid engine) =
      ⟨dceRegisterEngine w.clients pid engine,
        ⟨insert ⟨.engine, pid, engine⟩ w.ledger.opened, w.ledger.home⟩, w.buried⟩ := by
  simp only [step, Server.serve, rpcEngineOpen, Ledger.grant, Ledger.releaseAll, ne_eq, h,
    not_false_eq_true, if_true, if_false, List.foldl_nil]

theorem step_viddec3Create (engine : Handle) {codec : Handle} (h : codec ≠ 0) :
    w.step (.viddec3Create pid engine codec) =
      ⟨dceRegisterCodec w.clients pid codec,
        ⟨insert ⟨.codec, pid, codec⟩ w.ledger.opened, insert (codec, engine) w.ledger.home⟩,
        w.buried⟩ := by
  simp only [step, Server.serve, rpcViddec3Create, Ledger.grant, Ledger.releaseAll, ne_eq, h,
    not_false_eq_true, if_true, if_false, List.foldl_nil]

theorem step_obit (hp : pid ≠ 0) (hu : UniquePids w.clients) :
    w.step (.obit pid) =
      ⟨(dceCleanupCb ⟨w.clients, []⟩ .procObit pid).clients,
        w.ledger.releaseAll (obitCalls w.clients pid), insert pid w.buried⟩ := by
  have hcalls : (Server.serve ⟨w.clients, []⟩ (.obit pid)).calls = obitCalls w.clients pid :=
    dceCleanupCb_calls hp hu
  simp only [step, Ledger.grant, hcalls]
  rfl

/-- Clients have non-zero pids, close and delete what they have open, and create
codecs on an engine they have open; Codec Engine returns the null handle or one
that is not open. -/
@[reducible] def Legal (w : World) : Event → Prop
  | .engineOpen pid engine => pid ≠ 0 ∧ (engine = 0 ∨ ¬w.ledger.IsOpen .engine engine)
  | .engineClose pid engine => pid ≠ 0 ∧ ⟨.engine, pid, engine⟩ ∈ w.ledger.opened
  | .viddec3Create pid engine codec =>
      pid ≠ 0 ∧ ⟨.engine, pid, engine⟩ ∈ w.ledger.opened ∧
        (codec = 0 ∨ ¬w.ledger.IsOpen .codec codec)
  | .viddec3Control pid _ => pid ≠ 0
  | .viddec3Process pid _ => pid ≠ 0
  | .viddec3Delete pid codec => pid ≠ 0 ∧ ⟨.codec, pid, codec⟩ ∈ w.ledger.opened
  | .obit pid => pid ≠ 0

instance (w : World) : DecidablePred w.Legal := Event.decidable

end World

end Libdce.Tracking
