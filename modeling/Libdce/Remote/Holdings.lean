import Libdce.Remote.LocalEngine
import Libdce.Tracking.ExactMap
import Libdce.Tracking.Records

/-!
# Nothing leaks

What a client holds is what its calls have returned and it has not given back. As long
as every registration finds room, Codec Engine has exactly that open for the living
clients, and the table on the coprocessor records exactly that for each of them.

## Implementation notes

Codec Engine is a parameter; its contract is that an open or a create returns null or
something that is not open, and that a close or a delete closes what it is given.
-/

namespace Libdce.Remote

open Foundation.Bytes Foundation.GuardedRuns Tracking Host

variable {σ κ : Type*}

/-- Codec Engine keeps account of what is open. -/
structure Manages (ce : CodecEngine κ) (opened : κ → Set CeCall) : Prop where
  engineOpen : ∀ env name e,
    let out := ce env (.engineOpen name) e
    out.1.ret = 0 ∧ opened out.2 = opened e ∨ out.1.ret ≠ 0 ∧ ⟨.engine, out.1.ret⟩ ∉ opened e ∧
      opened out.2 = insert ⟨.engine, out.1.ret⟩ (opened e)
  engineClose : ∀ env engine e,
    opened (ce env (.engineClose engine) e).2 = opened e \ {⟨.engine, engine⟩}
  viddec3Create : ∀ env engine name params e,
    let out := ce env (.viddec3Create engine name params) e
    out.1.ret = 0 ∧ opened out.2 = opened e ∨ out.1.ret ≠ 0 ∧ ⟨.codec, out.1.ret⟩ ∉ opened e ∧
      opened out.2 = insert ⟨.codec, out.1.ret⟩ (opened e)
  viddec3Control : ∀ env codec id dynParams status e,
    opened (ce env (.viddec3Control codec id dynParams status) e).2 = opened e
  viddec3Process : ∀ env codec inBufs outBufs inArgs outArgs e,
    opened (ce env (.viddec3Process codec inBufs outBufs inArgs outArgs) e).2 = opened e
  viddec3Delete : ∀ env codec e,
    opened (ce env (.viddec3Delete codec) e).2 = opened e \ {⟨.codec, codec⟩}

namespace Operation

/-- What the clients hold after a call that has returned `r` to `p`. -/
def account (p : Pid) (r : Return) (held : Finset Holding) : Operation → Finset Holding
  | .engineOpen _ _ =>
      if r.value.getD 0 = 0 then held else insert ⟨.engine, p, r.value.getD 0⟩ held
  | .engineClose engine => held.erase ⟨.engine, p, engine⟩
  | .viddec3Create _ _ _ =>
      if r.value.getD 0 = 0 then held else insert ⟨.codec, p, r.value.getD 0⟩ held
  | .viddec3Control _ _ _ _ => held
  | .viddec3Process _ _ _ _ _ => held
  | .viddec3Delete codec => held.erase ⟨.codec, p, codec⟩

/-- Clients give back what they hold, and create codecs on an engine they hold. -/
def Entitled (p : Pid) (held : Finset Holding) : Operation → Prop
  | .engineClose engine => ⟨.engine, p, engine⟩ ∈ held
  | .viddec3Create engine _ _ => ⟨.engine, p, engine⟩ ∈ held
  | .viddec3Delete codec => ⟨.codec, p, codec⟩ ∈ held
  | _ => True

end Operation

/-- A Codec Engine called directly, and what its clients hold. -/
structure Household (κ : Type*) where
  engine : LocalEngine κ
  held : Finset Holding

namespace Household

def start (codecEngine : κ) : Household κ := ⟨.start Clients.zero codecEngine, ∅⟩

/-- What Codec Engine answers to a call. -/
def reply (ce : CodecEngine κ) (w : Household κ) (p : Pid) (env : ClientEnv) (op : Operation) :
    CeReply := (ce p (op.request env.mem) w.engine.codecEngine).1

/-- The dead hold nothing. -/
def step (ce : CodecEngine κ) (w : Household κ) : Step → Household κ
  | .call p env op =>
      ⟨w.engine.step ce (.call p env op), op.account p (op.returns (w.reply ce p env op)) w.held⟩
  | .obit p => ⟨w.engine.step ce (.obit p), w.held.filter (·.owner ≠ p)⟩

/-- The clients use the library as they should, calling only while they are connected; they
give back only what they hold and create codecs on their own engines; and registrations find
room. -/
def Legal (ce : CodecEngine κ) (dispatch : Word → Option Fxn) (w : Household κ) : Step → Prop
  | .call p env op => p ≠ 0 ∧ w.engine.Legal dispatch (.call p env op) ∧ op.Entitled p w.held ∧
      HasRoom w.engine.clients ((op.request env.mem).event p (w.reply ce p env op))
  | .obit p => p ≠ 0

/-- The table and Codec Engine both agree with the clients. -/
structure Kept (opened : κ → Set CeCall) (w : Household κ) : Prop where
  exact : Exact w.engine.clients ⟨w.held, ∅⟩
  opened : ∀ call, call ∈ opened w.engine.codecEngine ↔ ∃ p, ⟨call.kind, p, call.handle⟩ ∈ w.held

section Accounts

variable {t : Clients} {held : Finset Holding} {p : Pid} {k : Kind} {h : Handle}

/-- Where codecs were created does not matter to the table. -/
theorem exact_rehome {l : Ledger} (hw : Exact t l) {opened : Finset Holding} (heq : l.opened = opened) :
    Exact t ⟨opened, ∅⟩ := by
  subst heq
  exact ⟨hw.unique, hw.oneOwner, hw.nonzero, hw.covered,
    fun i hi => ⟨(hw.mirrors i hi).stored, (hw.mirrors i hi).counted⟩, hw.unused⟩

/-- Giving a handle back takes it from its only holder. -/
theorem opened_release (hw : Exact t ⟨held, ∅⟩) (hmem : ⟨k, p, h⟩ ∈ held) :
    (Ledger.release ⟨held, ∅⟩ ⟨k, h⟩).opened = held.erase ⟨k, p, h⟩ := by
  ext x
  rw [Ledger.mem_release, Finset.mem_erase]
  constructor
  · rintro ⟨hx, hother⟩
    refine ⟨?_, hx⟩
    rintro rfl
    exact hother ⟨rfl, rfl⟩
  · rintro ⟨hne, hx⟩
    exact ⟨hx, fun heq => hne (hw.oneOwner x hx _ hmem heq.1 heq.2)⟩

theorem opened_engineOpen (t : Clients) (held : Finset Holding) (p : Pid) (ret : Handle) :
    (World.step ⟨t, ⟨held, ∅⟩, ∅⟩ (.engineOpen p ret)).ledger.opened =
      if ret = 0 then held else insert ⟨.engine, p, ret⟩ held := by
  by_cases hret : ret = 0
  · rw [if_pos hret, hret, World.step_engineOpen_null]
  · rw [if_neg hret, World.step_engineOpen _ _ hret]

theorem opened_viddec3Create (t : Clients) (held : Finset Holding) (p : Pid) (engine ret : Handle) :
    (World.step ⟨t, ⟨held, ∅⟩, ∅⟩ (.viddec3Create p engine ret)).ledger.opened =
      if ret = 0 then held else insert ⟨.codec, p, ret⟩ held := by
  by_cases hret : ret = 0
  · rw [if_pos hret, hret, World.step_viddec3Create_null]
  · rw [if_neg hret, World.step_viddec3Create _ _ _ hret]

/-- The releases of a cleanup are what the client holds. -/
theorem mem_obitCalls (hw : Exact t ⟨held, ∅⟩) (hp : p ≠ 0) :
    ⟨k, h⟩ ∈ obitCalls t p ↔ ⟨k, p, h⟩ ∈ held := by
  cases hi : getClient t p with
  | none =>
      have hnone : h ∉ Ledger.held ⟨held, ∅⟩ k p := by
        rw [hw.held_of_absent hi]
        exact Finset.notMem_empty h
      simp only [obitCalls, hi, List.not_mem_nil, false_iff]
      exact fun hmem => hnone (Ledger.mem_held.mpr hmem)
  | some i =>
      simp only [obitCalls, hi]
      exact (hw.mirrors_slot hp hi).mem_releases_iff

theorem opened_obit (hw : Exact t ⟨held, ∅⟩) (hp : p ≠ 0) :
    (Ledger.releaseAll ⟨held, ∅⟩ (obitCalls t p)).opened = held.filter (·.owner ≠ p) := by
  ext x
  obtain ⟨k, q, h⟩ := x
  rw [Ledger.mem_releaseAll, Finset.mem_filter]
  apply and_congr_right
  intro hx
  rw [mem_obitCalls hw hp, not_iff_not]
  constructor
  · intro hmem
    exact hw.oneOwner.owner_eq hx hmem
  · rintro rfl
    exact hx

theorem opened_releaseAll {ce : CodecEngine κ} {opened : κ → Set CeCall} (m : Manages ce opened)
    (p : Pid) (calls : List CeCall) (e : κ) :
    opened (releaseAll ce p calls e) = opened e \ {call | call ∈ calls} := by
  induction calls generalizing e with
  | nil => simp [releaseAll]
  | cons call calls ih =>
      have hcall : opened (ce p (release call) e).2 = opened e \ {call} := by
        obtain ⟨_ | _, h⟩ := call
        · exact m.engineClose p h e
        · exact m.viddec3Delete p h e
      calc
        opened (releaseAll ce p (call :: calls) e) =
            opened (ce p (release call) e).2 \ {call | call ∈ calls} := ih _
        _ = opened e \ {x | x ∈ call :: calls} := by
          rw [hcall]
          ext x
          simp only [Set.mem_sdiff, Set.mem_singleton_iff, Set.mem_ofPred_eq, List.mem_cons, not_or,
            and_assoc]

end Accounts

section Steps

variable {ce : CodecEngine κ} {opened : κ → Set CeCall} {dispatch : Word → Option Fxn}
  {w : Household κ} {p : Pid} {env : ClientEnv}

namespace Kept

/-- The table after an event that concerns it. -/
theorem exact_step (hw : Kept opened w) {ev : Event} {held : Finset Holding}
    (hlegal : World.Legal ⟨w.engine.clients, ⟨w.held, ∅⟩, ∅⟩ ev)
    (hroom : HasRoom w.engine.clients ev)
    (hheld : (World.step ⟨w.engine.clients, ⟨w.held, ∅⟩, ∅⟩ ev).ledger.opened = held) :
    Exact (Server.serve ⟨w.engine.clients, []⟩ ev).clients ⟨held, ∅⟩ := by
  have hstep := Exact.step (w := ⟨w.engine.clients, ⟨w.held, ∅⟩, ∅⟩) hw.exact hlegal hroom
  exact exact_rehome hstep hheld

theorem not_isOpen (hw : Kept opened w) {k : Kind} {h : Handle}
    (hnew : ⟨k, h⟩ ∉ opened w.engine.codecEngine) : ¬Ledger.IsOpen ⟨w.held, ∅⟩ k h := by
  rintro ⟨⟨k', q, h'⟩, hx, rfl, rfl⟩
  exact hnew ((hw.opened _).mpr ⟨q, hx⟩)

/-- A new handle. -/
theorem opened_grant (hw : Kept opened w) {k : Kind} {h : Handle} {e : κ}
    (he : opened e = insert ⟨k, h⟩ (opened w.engine.codecEngine)) (call : CeCall) :
    call ∈ opened e ↔ ∃ q, ⟨call.kind, q, call.handle⟩ ∈ insert (⟨k, p, h⟩ : Holding) w.held := by
  rw [he, Set.mem_insert_iff, hw.opened]
  constructor
  · rintro (rfl | ⟨q, hq⟩)
    · exact ⟨p, Finset.mem_insert_self _ _⟩
    · exact ⟨q, Finset.mem_insert_of_mem hq⟩
  · rintro ⟨q, hq⟩
    rcases Finset.mem_insert.mp hq with heq | hq
    · obtain ⟨rfl, rfl⟩ : call.kind = k ∧ call.handle = h :=
        ⟨congrArg Holding.kind heq, congrArg Holding.handle heq⟩
      exact Or.inl rfl
    · exact Or.inr ⟨q, hq⟩

/-- A handle that is given back. -/
theorem opened_release (hw : Kept opened w) {k : Kind} {h : Handle} {e : κ}
    (hmem : ⟨k, p, h⟩ ∈ w.held) (he : opened e = opened w.engine.codecEngine \ {⟨k, h⟩})
    (call : CeCall) :
    call ∈ opened e ↔ ∃ q, ⟨call.kind, q, call.handle⟩ ∈ w.held.erase ⟨k, p, h⟩ := by
  rw [he, Set.mem_sdiff, hw.opened, Set.mem_singleton_iff]
  constructor
  · rintro ⟨⟨q, hq⟩, hne⟩
    refine ⟨q, Finset.mem_erase.mpr ⟨?_, hq⟩⟩
    rintro heq
    apply hne
    obtain ⟨rfl, rfl⟩ : call.kind = k ∧ call.handle = h :=
      ⟨congrArg Holding.kind heq, congrArg Holding.handle heq⟩
    rfl
  · rintro ⟨q, hq⟩
    obtain ⟨hne, hq⟩ := Finset.mem_erase.mp hq
    refine ⟨⟨q, hq⟩, ?_⟩
    rintro rfl
    exact hne (hw.exact.oneOwner _ hq _ hmem rfl rfl)

/-- What an open or a create comes to. -/
theorem granted (hw : Kept opened w) (p : Pid) {k : Kind} {ret : Handle} {e : κ}
    (hout : ret = 0 ∧ opened e = opened w.engine.codecEngine ∨
      ret ≠ 0 ∧ ⟨k, ret⟩ ∉ opened w.engine.codecEngine ∧
        opened e = insert ⟨k, ret⟩ (opened w.engine.codecEngine)) :
    (ret = 0 ∨ ¬Ledger.IsOpen ⟨w.held, ∅⟩ k ret) ∧ ∀ call, call ∈ opened e ↔
      ∃ q, ⟨call.kind, q, call.handle⟩ ∈ if ret = 0 then w.held else insert ⟨k, p, ret⟩ w.held := by
  rcases hout with ⟨hret, he⟩ | ⟨hret, hnew, he⟩
  · refine ⟨Or.inl hret, fun call => ?_⟩
    rw [if_pos hret, he]
    exact hw.opened call
  · refine ⟨Or.inr (hw.not_isOpen hnew), fun call => ?_⟩
    rw [if_neg hret]
    exact hw.opened_grant he call

theorem call (m : Manages ce opened) (hw : Kept opened w) {op : Operation}
    (hlegal : w.Legal ce dispatch (.call p env op)) : Kept opened (w.step ce (.call p env op)) := by
  obtain ⟨hp, -, hentitled, hroom⟩ := hlegal
  have hexact : ∀ held, _ → _ → Exact _ ⟨held, ∅⟩ := fun _ hlegal => hw.exact_step hlegal hroom
  cases op with
  | engineOpen name ec =>
      obtain ⟨hfresh, hopened⟩ := hw.granted p (m.engineOpen p (some name) w.engine.codecEngine)
      exact ⟨hexact _ ⟨hp, hfresh⟩ (opened_engineOpen _ _ _ _), hopened⟩
  | engineClose engine =>
      have hopened := hw.opened_release hentitled (m.engineClose p engine w.engine.codecEngine)
      exact ⟨hexact _ ⟨hp, hentitled⟩ (Household.opened_release hw.exact hentitled), hopened⟩
  | viddec3Create engine name params =>
      obtain ⟨hfresh, hopened⟩ := hw.granted p
        (m.viddec3Create p engine (some name) (ducatiAddr env.mem params) w.engine.codecEngine)
      exact ⟨hexact _ ⟨hp, hentitled, hfresh⟩ (opened_viddec3Create _ _ _ _ _), hopened⟩
  | viddec3Control codec id dynParams status =>
      have hopened := m.viddec3Control p codec id (ducatiAddr env.mem dynParams)
        (ducatiAddr env.mem status) w.engine.codecEngine
      exact ⟨hexact _ hp rfl, fun call => (Set.ext_iff.mp hopened call).trans (hw.opened call)⟩
  | viddec3Process codec inBufs outBufs inArgs outArgs =>
      have hopened := m.viddec3Process p codec (ducatiAddr env.mem inBufs)
        (ducatiAddr env.mem outBufs) (ducatiAddr env.mem inArgs) (ducatiAddr env.mem outArgs)
        w.engine.codecEngine
      exact ⟨hexact _ hp rfl, fun call => (Set.ext_iff.mp hopened call).trans (hw.opened call)⟩
  | viddec3Delete codec =>
      have hopened := hw.opened_release hentitled (m.viddec3Delete p codec w.engine.codecEngine)
      exact ⟨hexact _ ⟨hp, hentitled⟩ (Household.opened_release hw.exact hentitled), hopened⟩

theorem obit (m : Manages ce opened) (hw : Kept opened w) (hp : p ≠ 0) :
    Kept opened (w.step ce (.obit p)) := by
  have hcalls : (Tracking.dceCleanupCb ⟨w.engine.clients, []⟩ .procObit p).calls =
      obitCalls w.engine.clients p := dceCleanupCb_calls hp hw.exact.unique
  refine ⟨exact_rehome (hw.exact.obit hp) (opened_obit hw.exact hp), fun call => ?_⟩
  calc
    call ∈ opened (w.step ce (.obit p)).engine.codecEngine ↔
        call ∈ opened w.engine.codecEngine \ {call | call ∈ obitCalls w.engine.clients p} := by
      simp only [Household.step, LocalEngine.step, opened_releaseAll m, hcalls]
    _ ↔ (∃ q, ⟨call.kind, q, call.handle⟩ ∈ w.held) ∧ ⟨call.kind, p, call.handle⟩ ∉ w.held := by
      rw [Set.mem_sdiff, hw.opened, ← mem_obitCalls hw.exact hp]
      rfl
    _ ↔ ∃ q, ⟨call.kind, q, call.handle⟩ ∈ w.held.filter (·.owner ≠ p) := by
      constructor
      · rintro ⟨⟨q, hq⟩, hnot⟩
        refine ⟨q, Finset.mem_filter.mpr ⟨hq, ?_⟩⟩
        rintro rfl
        exact hnot hq
      · rintro ⟨q, hq⟩
        obtain ⟨hq, hne⟩ := Finset.mem_filter.mp hq
        exact ⟨⟨q, hq⟩, fun hp' => hne (hw.exact.oneOwner.owner_eq hq hp')⟩

theorem step (m : Manages ce opened) (hw : Kept opened w) {a : Step}
    (ha : w.Legal ce dispatch a) : Kept opened (w.step ce a) := by
  cases a with
  | call p env op => exact hw.call m ha
  | obit p => exact hw.obit m ha

theorem start {codecEngine : κ} (h : opened codecEngine = ∅) :
    Kept opened (Household.start codecEngine) := by
  refine ⟨exact_rehome Exact.zero rfl, fun call => ?_⟩
  simp [Household.start, LocalEngine.start, h]

/-- What is recorded for a client is what it holds. -/
theorem mem_record_iff (hw : Kept opened w) (hp : p ≠ 0) {k : Kind} {h : Handle} (hh : h ≠ 0) :
    (∃ c ∈ record w.engine.clients p, ∃ j, c.cells k j = h) ↔ ⟨k, p, h⟩ ∈ w.held := by
  cases hi : getClient w.engine.clients p with
  | none =>
      have hnone : h ∉ Ledger.held ⟨w.held, ∅⟩ k p := by
        rw [hw.exact.held_of_absent hi]
        exact Finset.notMem_empty h
      rw [record_eq_none_iff.mpr hi]
      simp only [Option.mem_def, reduceCtorEq, false_and, exists_false, false_iff]
      exact fun hmem => hnone (Ledger.mem_held.mpr hmem)
  | some i =>
      rw [record_of_getClient hi]
      simp only [Option.mem_def, Option.some.injEq, exists_eq_left']
      have hcells := (hw.exact.mirrors_slot hp hi).mem_cells_iff (k := k) (h := h)
      exact (and_iff_right hh).symm.trans hcells

end Kept

end Steps

/-- What a run of the system has in common with that of its clients' household. -/
structure Houses (service : σ → Service κ) (dispatch : Word → Option Fxn)
    (opened : κ → Set CeCall) (s : System σ) (w : Household κ) : Prop where
  refines : Refines service dispatch s w.engine
  kept : Kept opened w

/-- Through stubs, messages, handlers, crashes and cleanups, Codec Engine has open exactly
what the living clients were returned and have not given back, each thing for one of them,
and the table records for each client exactly what it holds. Clients call only while they
are connected, give back only what they hold and create codecs on their own engines, and
registrations find room (`Legal`). -/
theorem open_iff_held {rcm : Rcm σ} {obit : Pid → σ → σ} {service : σ → Service κ}
    {ce : CodecEngine κ} {dispatch : Word → Option Fxn} {opened : κ → Set CeCall}
    (d : Delivers rcm service ce dispatch) (n : Notifies obit service ce) (m : Manages ce opened)
    {u : σ} (hclients : (service u).clients = Clients.zero)
    (hopened : opened (service u).codecEngine = ∅) {steps : List Step}
    (run : Run (step ce) (Legal ce dispatch) (start (service u).codecEngine) steps) :
    let s := final (System.step rcm obit) (System.start u) steps
    let held := (final (step ce) (start (service u).codecEngine) steps).held
    (∀ k h, ⟨k, h⟩ ∈ opened (service s.transport).codecEngine ↔ ∃! p, ⟨k, p, h⟩ ∈ held) ∧
      ∀ p ≠ 0, ∀ k, ∀ h ≠ 0, (∃ c ∈ record (service s.transport).clients p, ∃ j, c.cells k j = h) ↔
        ⟨k, p, h⟩ ∈ held := by
  have h0 : Houses service dispatch opened (System.start u) (start (service u).codecEngine) := by
    refine ⟨?_, Kept.start hopened⟩
    rw [start, ← hclients]
    exact Refines.start u
  obtain ⟨hrefines, hkept⟩ := run.related (f := System.step rcm obit)
    (R := Houses service dispatch opened) h0 fun s w a h ha => by
      cases a with
      | call p env op => exact ⟨h.refines.step d n ha.2.1, h.kept.step m ha⟩
      | obit p => exact ⟨h.refines.step d n (a := .obit p) trivial, h.kept.step m ha⟩
  constructor
  · intro k h
    rw [hrefines.codecEngine, hkept.opened]
    constructor
    · rintro ⟨p, hp⟩
      exact ⟨p, hp, fun q hq => hkept.exact.oneOwner.owner_eq hq hp⟩
    · rintro ⟨p, hp, -⟩
      exact ⟨p, hp⟩
  · intro p hp k h hh
    rw [hrefines.clients]
    exact hkept.mem_record_iff hp hh

theorem numbering_grant (k : Kind) (n : Word) (opened : Finset CeCall) :
    let out : CeReply × Word × Finset CeCall :=
      if n ≠ 0 ∧ ⟨k, n⟩ ∉ opened then (⟨n, 0⟩, n + 1, insert ⟨k, n⟩ opened)
      else (⟨0, 0⟩, n, opened)
    out.1.ret = 0 ∧ {call | call ∈ out.2.2} = {call | call ∈ opened} ∨
      out.1.ret ≠ 0 ∧ ⟨k, out.1.ret⟩ ∉ {call | call ∈ opened} ∧
        {call | call ∈ out.2.2} = insert ⟨k, out.1.ret⟩ {call | call ∈ opened} := by
  by_cases hn : n ≠ 0 ∧ ⟨k, n⟩ ∉ opened
  · simp only [if_pos hn]
    refine Or.inr ⟨hn.1, hn.2, ?_⟩
    ext call
    exact Finset.mem_insert
  · rw [if_neg hn]
    exact Or.inl ⟨rfl, rfl⟩

theorem numbering_erase (call : CeCall) (opened : Finset CeCall) :
    {x | x ∈ opened.erase call} = {x | x ∈ opened} \ {call} := by
  ext x
  exact Finset.mem_erase.trans and_comm

theorem numbering_manages : Manages numbering fun e => {call | call ∈ e.2} where
  engineOpen _ _ e := numbering_grant .engine e.1 e.2
  engineClose _ engine e := numbering_erase ⟨.engine, engine⟩ e.2
  viddec3Create _ _ _ _ e := numbering_grant .codec e.1 e.2
  viddec3Control _ _ _ _ _ _ := rfl
  viddec3Process _ _ _ _ _ _ _ := rfl
  viddec3Delete _ codec e := numbering_erase ⟨.codec, codec⟩ e.2

/-- Process 8 still holds its engine after process 7 has died. -/
theorem open_iff_held_two :
    let s := final (System.step onTheSpot buries) (System.start ⟨Clients.zero, (1, ∅), []⟩)
      (twoProcesses.take 4)
    (⟨.engine, 2⟩ ∈ s.transport.codecEngine.2) ∧ ⟨.engine, 1⟩ ∉ s.transport.codecEngine.2 ∧
      ⟨.codec, 3⟩ ∉ s.transport.codecEngine.2 := by
  have hentitled : (⟨.engine, 7, 1⟩ : Holding) ∈
      (final (step numbering) (start (1, ∅)) (twoProcesses.take 2)).held := by decide +kernel
  have hdies : (7 : Pid) ≠ 0 := by decide
  have run : Run (step numbering) (Legal numbering inOrder) (start (1, ∅))
      (twoProcesses.take 4) :=
    ⟨⟨by decide, ⟨Nat.zero_le _, process_ready 7 false .empty true⟩, trivial, by decide +kernel⟩,
      ⟨by decide, ⟨Nat.zero_le _, process_ready 8 false .empty false⟩, trivial, by decide +kernel⟩,
      ⟨by decide, ⟨⟨Nat.zero_le _, by decide⟩, rfl⟩, hentitled, by decide +kernel⟩, hdies, trivial⟩
  have hheld : (final (step numbering) (start (1, ∅)) (twoProcesses.take 4)).held =
      {⟨.engine, 8, 2⟩} := by decide +kernel
  have hopen : ∀ k h, ⟨k, h⟩ ∈ (final (System.step onTheSpot buries)
      (System.start ⟨Clients.zero, (1, ∅), []⟩) (twoProcesses.take 4)).transport.codecEngine.2 ↔
      ∃! p, ⟨k, p, h⟩ ∈ ({⟨.engine, 8, 2⟩} : Finset Holding) := by
    rw [← hheld]
    exact (open_iff_held onTheSpot_delivers buries_notifies numbering_manages
      (u := ⟨Clients.zero, (1, ∅), []⟩) rfl (by simp) run).1
  refine ⟨(hopen .engine 2).mpr ⟨8, by decide, fun p hp => by simpa using hp⟩, fun h => ?_,
    fun h => ?_⟩
  · obtain ⟨p, hp, -⟩ := (hopen .engine 1).mp h
    simp at hp
  · obtain ⟨p, hp, -⟩ := (hopen .codec 3).mp h
    simp at hp

end Household

end Libdce.Remote
