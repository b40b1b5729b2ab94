import Libdce.Concurrency.Interleaving
import Libdce.Tracking.Isolation

/-!
# Calls in flight and the cleanup

A codec should not be deleted, nor its engine closed, while a control or process
call on it is being executed. A client that waits for its calls before it gives
a codec or an engine back keeps this for its own requests. The cleanup does not
wait for anything, so all depends on where the obit falls.
-/

namespace Libdce.Concurrency

open Tracking Foundation.GuardedRuns Foundation.SlotArray

/-- The request that a worker is in the middle of, as far as it names a handle. -/
def Task.request : Task → Option Request
  | .registering _ _ _ => none
  | .releasing k pid h => some (.release k pid h)
  | .running r => some r

/-- The codec whose call the worker has begun and not ended. -/
def Task.callee : Task → Option Handle
  | .running r => r.callee
  | _ => none

namespace State

/-- The request was sent and is not over. -/
def Outstanding (s : State) (r : Request) : Prop :=
  r ∈ s.waiting ∨ ∃ t ∈ s.tasks, t.request = some r

/-- The release calls that a step makes into Codec Engine. -/
def issued (s : State) : Action → List CeCall
  | .release k _ h => [⟨k, h⟩]
  | .obit pid => (dceCleanupCb ⟨s.clients, []⟩ .procObit pid).calls
  | _ => []

/-- The step neither deletes a codec on which a call is being executed nor
closes the engine it was created on. -/
def Harmless (s : State) (a : Action) : Prop :=
  ∀ t ∈ s.tasks, ∀ codec ∈ t.callee, ⟨.codec, codec⟩ ∉ s.issued a ∧
    ∀ x ∈ s.ledger.home, x.1 = codec → ⟨.engine, x.2⟩ ∉ s.issued a

/-- The threads of a client do not give back a codec or its engine while one of
their calls on the codec is outstanding, nor call a codec that is being given
back. -/
@[reducible] def CallsFirst (s : State) : Action → Prop
  | .send (.viddec3Delete pid codec) =>
      ∀ r, s.Outstanding r → r.pid = pid → r.callee ≠ some codec
  | .send (.engineClose pid engine) =>
      ∀ r, s.Outstanding r → r.pid = pid → ∀ codec ∈ r.callee, (codec, engine) ∉ s.ledger.home
  | .send (.viddec3Control pid codec) => ¬s.Outstanding (.viddec3Delete pid codec) ∧
      ∀ x ∈ s.ledger.home, x.1 = codec → ¬s.Outstanding (.engineClose pid x.2)
  | .send (.viddec3Process pid codec) => ¬s.Outstanding (.viddec3Delete pid codec) ∧
      ∀ x ∈ s.ledger.home, x.1 = codec → ¬s.Outstanding (.engineClose pid x.2)
  | _ => True

/-- A request names only what is open for its sender. -/
@[reducible] def NamesOwn (s : State) : Action → Prop
  | .send r => ∀ call ∈ r.names, ⟨call.kind, r.pid, call.handle⟩ ∈ s.ledger.opened
  | _ => True

/-- Codec Engine does not hand out a handle that an outstanding request names,
and creates codecs on open engines only. -/
@[reducible] def GrantsUnnamed (s : State) : Action → Prop
  | .engineOpen _ engine => engine ≠ 0 → ∀ r, s.Outstanding r → r.names ≠ some ⟨.engine, engine⟩
  | .viddec3Create _ engine codec => codec ≠ 0 →
      (∀ r, s.Outstanding r → r.names ≠ some ⟨.codec, codec⟩) ∧ s.ledger.IsOpen .engine engine
  | _ => True

/-- No call is being executed on a codec that the slot of the dead client
records, or on a codec of an engine recorded there. -/
@[reducible] def ObitAfterCalls (s : State) : Action → Prop
  | .obit pid => ∀ t ∈ s.tasks, ∀ codec ∈ t.callee, codec ∉ recorded s.clients .codec pid ∧
      ∀ x ∈ s.ledger.home, x.1 = codec → x.2 ∉ recorded s.clients .engine pid
  | _ => True

variable {s : State} {a : Action} {r r' : Request}

/-- Only sending puts a request among those that wait. -/
theorem waiting_step (hr : r ∈ (s.step a).waiting) : r ∈ s.waiting ∨ a = .send r := by
  cases a with
  | send r' =>
      rcases Multiset.mem_cons.mp hr with rfl | hr
      · exact Or.inr rfl
      · exact Or.inl hr
  | engineOpen pid engine => exact Or.inl (Multiset.mem_of_mem_erase hr)
  | viddec3Create pid engine codec => exact Or.inl (Multiset.mem_of_mem_erase hr)
  | unregister k pid h => exact Or.inl (Multiset.mem_of_mem_erase hr)
  | begin r' => exact Or.inl (Multiset.mem_of_mem_erase hr)
  | die pid => exact Or.inl hr
  | register k pid h => exact Or.inl hr
  | release k pid h => exact Or.inl hr
  | finish r' => exact Or.inl hr
  | obit pid => exact Or.inl hr

/-- A worker that is given an object is in the middle of no request that names it. -/
theorem mem_granted {k : Kind} {pid : Pid} {h : Handle} {t : Task} (ht : t ∈ s.granted k pid h) :
    t ∈ s.tasks ∨ t.request = none := by
  rw [granted] at ht
  split at ht
  · exact Or.inl ht
  · rcases Multiset.mem_cons.mp ht with rfl | ht
    · exact Or.inr rfl
    · exact Or.inl ht

/-- A worker that takes a request takes one that waits. -/
theorem tasks_step (hlegal : s.Legal a) {t : Task} (ht : t ∈ (s.step a).tasks)
    (hr : t.request = some r) : t ∈ s.tasks ∨ r ∈ s.waiting := by
  have hgranted : ∀ k pid h, t ∈ s.granted k pid h → t ∈ s.tasks := by
    intro k pid h ht
    refine (mem_granted ht).resolve_right fun hnone => ?_
    rw [hnone] at hr
    exact nomatch hr
  cases a with
  | engineOpen pid engine => exact Or.inl (hgranted _ _ _ ht)
  | viddec3Create pid engine codec => exact Or.inl (hgranted _ _ _ ht)
  | unregister k pid h =>
      rcases Multiset.mem_cons.mp ht with rfl | ht
      · cases hr
        exact Or.inr hlegal
      · exact Or.inl ht
  | begin r' =>
      rcases Multiset.mem_cons.mp ht with rfl | ht
      · cases hr
        exact Or.inr hlegal.1
      · exact Or.inl ht
  | register k pid h => exact Or.inl (Multiset.mem_of_mem_erase ht)
  | release k pid h => exact Or.inl (Multiset.mem_of_mem_erase ht)
  | finish r' => exact Or.inl (Multiset.mem_of_mem_erase ht)
  | send r' => exact Or.inl ht
  | die pid => exact Or.inl ht
  | obit pid => exact Or.inl ht

/-- Only sending makes a request outstanding. -/
theorem outstanding_step (hlegal : s.Legal a) (h : (s.step a).Outstanding r) :
    s.Outstanding r ∨ a = .send r := by
  rcases h with hwait | ⟨t, ht, hr⟩
  · exact (waiting_step hwait).imp_left Or.inl
  · rcases tasks_step hlegal ht hr with ht | hwait
    · exact Or.inl (Or.inr ⟨t, ht, hr⟩)
    · exact Or.inl (Or.inl hwait)

/-- A new object is unnamed; everything else that is open was open before. -/
theorem opened_step {x : Holding} (hgrants : s.GrantsUnnamed a)
    (hx : x ∈ (s.step a).ledger.opened) :
    x ∈ s.ledger.opened ∨
      ∀ r, s.Outstanding r → r.names ≠ some ⟨x.kind, x.handle⟩ := by
  cases a with
  | engineOpen pid engine =>
      rcases Ledger.mem_grant_engineOpen.mp hx with hx | ⟨h, rfl⟩
      · exact Or.inl hx
      · exact Or.inr (hgrants h)
  | viddec3Create pid engine codec =>
      rcases Ledger.mem_grant_viddec3Create.mp hx with hx | ⟨h, rfl⟩
      · exact Or.inl hx
      · exact Or.inr (hgrants h).1
  | release k pid h => exact Or.inl (Ledger.mem_release.mp hx).1
  | obit pid => exact Or.inl (Ledger.mem_releaseAll.mp hx).1
  | send r => exact Or.inl hx
  | die pid => exact Or.inl hx
  | register k pid h => exact Or.inl hx
  | unregister k pid h => exact Or.inl hx
  | begin r => exact Or.inl hx
  | finish r => exact Or.inl hx

/-- A new codec is unnamed; every other codec has the engine it had. -/
theorem home_step {x : Handle × Handle} (hgrants : s.GrantsUnnamed a)
    (hx : x ∈ (s.step a).ledger.home) :
    x ∈ s.ledger.home ∨ ∀ r, s.Outstanding r → r.names ≠ some ⟨.codec, x.1⟩ := by
  cases a with
  | engineOpen pid engine =>
      exact Or.inl (Ledger.home_grant_engineOpen s.ledger pid engine ▸ hx)
  | viddec3Create pid engine codec =>
      rcases Ledger.mem_home_grant_viddec3Create.mp hx with hx | ⟨h, rfl⟩
      · exact Or.inl hx
      · exact Or.inr (hgrants h).1
  | release k pid h => exact Or.inl (Ledger.mem_home_release.mp hx).1
  | obit pid => exact Or.inl (Ledger.mem_home_releaseAll.mp hx).1
  | send r => exact Or.inl hx
  | die pid => exact Or.inl hx
  | register k pid h => exact Or.inl hx
  | unregister k pid h => exact Or.inl hx
  | begin r => exact Or.inl hx
  | finish r => exact Or.inl hx

/-- The invariant: an object that is open belongs to whoever has a request on it
outstanding, and no client has a call on a codec outstanding together with the
release of the codec or of its engine. -/
structure Guarded (s : State) : Prop where
  unique : UniquePids s.clients
  deadNonzero : ∀ p ∈ s.dead, p ≠ 0
  oneOwner : s.ledger.OneOwner
  owners : ∀ r, s.Outstanding r → ∀ x ∈ s.ledger.opened,
    r.names = some ⟨x.kind, x.handle⟩ → x.owner = r.pid
  senders : ∀ r, s.Outstanding r → ∀ r', s.Outstanding r' → ∀ call,
    r.names = some call → r'.names = some call → r.pid = r'.pid
  codecFree : ∀ r, s.Outstanding r → ∀ codec, r.callee = some codec →
    ¬s.Outstanding (.viddec3Delete r.pid codec)
  engineFree : ∀ r, s.Outstanding r → ∀ codec, r.callee = some codec →
    ∀ engine, (codec, engine) ∈ s.ledger.home → ¬s.Outstanding (.engineClose r.pid engine)
  homes : ∀ x ∈ s.ledger.home, ∃ o,
    ⟨.codec, o, x.1⟩ ∈ s.ledger.opened ∧ ⟨.engine, o, x.2⟩ ∈ s.ledger.opened

namespace Guarded

theorem zero : Guarded zero where
  unique := uniquePids_zero
  deadNonzero := fun _ hp => absurd hp (Finset.notMem_empty _)
  oneOwner := Ledger.oneOwner_empty
  owners := fun _ _ _ hx => absurd hx (Finset.notMem_empty _)
  senders := by
    rintro r (hr | ⟨t, ht, _⟩)
    · exact absurd hr (Multiset.notMem_zero _)
    · exact absurd ht (Multiset.notMem_zero _)
  codecFree := by
    rintro r (hr | ⟨t, ht, _⟩)
    · exact absurd hr (Multiset.notMem_zero _)
    · exact absurd ht (Multiset.notMem_zero _)
  engineFree := fun _ _ _ _ _ hx => absurd hx (Finset.notMem_empty _)
  homes := fun _ hx => absurd hx (Finset.notMem_empty _)

theorem unique_step (hs : Guarded s) (a : Action) : UniquePids (s.step a).clients := by
  cases a with
  | register k pid h =>
      cases k with
      | engine => exact (dceRegisterEngine_contained s.clients pid h).unique hs.unique
      | codec => exact (dceRegisterCodec_contained s.clients pid h).unique hs.unique
  | unregister k pid h => exact (dceUnregister_contained k s.clients pid h).unique hs.unique
  | obit pid => exact (dceCleanupCb_contained ⟨s.clients, []⟩ pid).unique hs.unique
  | send r => exact hs.unique
  | die pid => exact hs.unique
  | engineOpen pid engine => exact hs.unique
  | viddec3Create pid engine codec => exact hs.unique
  | release k pid h => exact hs.unique
  | begin r => exact hs.unique
  | finish r => exact hs.unique

theorem deadNonzero_step (hs : Guarded s) (hlegal : s.Legal a) :
    ∀ p ∈ (s.step a).dead, p ≠ 0 := by
  cases a with
  | die pid => exact Finset.forall_mem_insert _ _ _ |>.mpr ⟨hlegal, hs.deadNonzero⟩
  | _ => exact hs.deadNonzero

theorem oneOwner_step (hs : Guarded s) (hlegal : s.Legal a) : (s.step a).ledger.OneOwner := by
  cases a with
  | engineOpen pid engine =>
      by_cases h : engine = 0
      · simp only [step, Ledger.grant, h, if_true]
        exact hs.oneOwner
      · simp only [step, Ledger.grant, h, if_false]
        exact hs.oneOwner.insert (hlegal.2.resolve_left h) _
  | viddec3Create pid engine codec =>
      by_cases h : codec = 0
      · simp only [step, Ledger.grant, h, if_true]
        exact hs.oneOwner
      · simp only [step, Ledger.grant, h, if_false]
        exact hs.oneOwner.insert (hlegal.2.resolve_left h) _
  | release k pid h => exact hs.oneOwner.release _
  | obit pid => exact hs.oneOwner.releaseAll _
  | send r => exact hs.oneOwner
  | die pid => exact hs.oneOwner
  | register k pid h => exact hs.oneOwner
  | unregister k pid h => exact hs.oneOwner
  | begin r => exact hs.oneOwner
  | finish r => exact hs.oneOwner

theorem owners_step (hs : Guarded s) (hlegal : s.Legal a) (hnames : s.NamesOwn a)
    (hgrants : s.GrantsUnnamed a) :
    ∀ r, (s.step a).Outstanding r → ∀ x ∈ (s.step a).ledger.opened,
      r.names = some ⟨x.kind, x.handle⟩ → x.owner = r.pid := by
  intro r hr x hx hname
  rcases outstanding_step hlegal hr with hold | rfl
  · rcases opened_step hgrants hx with hx | hunnamed
    · exact hs.owners r hold x hx hname
    · exact absurd hname (hunnamed r hold)
  · exact hs.oneOwner.owner_eq hx (hnames _ hname)

/-- A request that is sent has the sender of every request on the same object. -/
theorem sender_eq (hs : Guarded s) (hnames : s.NamesOwn (.send r)) (hr' : s.Outstanding r')
    {call : CeCall} (hcall : r.names = some call) (hcall' : r'.names = some call) :
    r.pid = r'.pid :=
  hs.owners r' hr' ⟨call.kind, r.pid, call.handle⟩ (hnames call hcall) hcall'

theorem senders_step (hs : Guarded s) (hlegal : s.Legal a) (hnames : s.NamesOwn a) :
    ∀ r, (s.step a).Outstanding r → ∀ r', (s.step a).Outstanding r' → ∀ call,
      r.names = some call → r'.names = some call → r.pid = r'.pid := by
  intro r hr r' hr' call hcall hcall'
  rcases outstanding_step hlegal hr with hold | rfl
  · rcases outstanding_step hlegal hr' with hold' | rfl
    · exact hs.senders r hold r' hold' call hcall hcall'
    · exact (hs.sender_eq hnames hold hcall' hcall).symm
  · rcases outstanding_step hlegal hr' with hold' | heq
    · exact hs.sender_eq hnames hold' hcall hcall'
    · injection heq with heq
      rw [heq]

theorem codecFree_step (hs : Guarded s) (hlegal : s.Legal a) (hfirst : s.CallsFirst a) :
    ∀ r, (s.step a).Outstanding r → ∀ codec, r.callee = some codec →
      ¬(s.step a).Outstanding (.viddec3Delete r.pid codec) := by
  intro r hr codec hcallee hdelete
  rcases outstanding_step hlegal hr with hold | rfl
  · rcases outstanding_step hlegal hdelete with hdelete | rfl
    · exact hs.codecFree r hold codec hcallee hdelete
    · exact hfirst r hold rfl hcallee
  · rcases outstanding_step hlegal hdelete with hdelete | heq
    · cases r <;> cases hcallee
      · exact hfirst.1 hdelete
      · exact hfirst.1 hdelete
    · injection heq with heq
      rw [heq] at hcallee
      exact nomatch hcallee

theorem engineFree_step (hs : Guarded s) (hlegal : s.Legal a) (hfirst : s.CallsFirst a)
    (hgrants : s.GrantsUnnamed a) :
    ∀ r, (s.step a).Outstanding r → ∀ codec, r.callee = some codec →
      ∀ engine, (codec, engine) ∈ (s.step a).ledger.home →
        ¬(s.step a).Outstanding (.engineClose r.pid engine) := by
  intro r hr codec hcallee engine hhome hclose
  rcases outstanding_step hlegal hr with hold | rfl
  · rcases outstanding_step hlegal hclose with hclose | rfl
    · rcases home_step hgrants hhome with hhome | hunnamed
      · exact hs.engineFree r hold codec hcallee engine hhome hclose
      · exact hunnamed r hold (Request.names_of_callee hcallee)
    · exact hfirst r hold rfl codec hcallee hhome
  · rcases outstanding_step hlegal hclose with hclose | heq
    · cases r <;> cases hcallee
      · exact hfirst.2 _ hhome rfl hclose
      · exact hfirst.2 _ hhome rfl hclose
    · injection heq with heq
      rw [heq] at hcallee
      exact nomatch hcallee

theorem homes_step (hs : Guarded s) (hlegal : s.Legal a) (hgrants : s.GrantsUnnamed a) :
    ∀ x ∈ (s.step a).ledger.home, ∃ o, ⟨.codec, o, x.1⟩ ∈ (s.step a).ledger.opened ∧
      ⟨.engine, o, x.2⟩ ∈ (s.step a).ledger.opened := by
  intro x hx
  cases a with
  | engineOpen pid engine =>
      obtain ⟨o, hcodec, hengine⟩ :=
        hs.homes x (Ledger.home_grant_engineOpen s.ledger pid engine ▸ hx)
      exact ⟨o, Ledger.mem_grant_engineOpen.mpr (Or.inl hcodec),
        Ledger.mem_grant_engineOpen.mpr (Or.inl hengine)⟩
  | viddec3Create pid engine codec =>
      rcases Ledger.mem_home_grant_viddec3Create.mp hx with hx | ⟨h, rfl⟩
      · obtain ⟨o, hcodec, hengine⟩ := hs.homes x hx
        exact ⟨o, Ledger.mem_grant_viddec3Create.mpr (Or.inl hcodec),
          Ledger.mem_grant_viddec3Create.mpr (Or.inl hengine)⟩
      · -- the engine is open, and its owner is the client that names it
        obtain ⟨⟨_, o, _⟩, hopen, rfl, rfl⟩ := (hgrants h).2
        have howner : o = pid := hs.owners _ (Or.inl hlegal.1) _ hopen rfl
        exact ⟨o, Ledger.mem_grant_viddec3Create.mpr (Or.inr ⟨h, by rw [howner]⟩),
          Ledger.mem_grant_viddec3Create.mpr (Or.inl hopen)⟩
  | release k pid h =>
      obtain ⟨hx, hcodec, hengine⟩ := Ledger.mem_home_release.mp hx
      obtain ⟨o, ho⟩ := hs.homes x hx
      refine ⟨o, Ledger.mem_release.mpr ⟨ho.1, ?_⟩, Ledger.mem_release.mpr ⟨ho.2, ?_⟩⟩
      · rintro ⟨rfl, rfl⟩
        exact hcodec rfl
      · rintro ⟨rfl, rfl⟩
        exact hengine rfl
  | obit pid =>
      obtain ⟨hx, hcodec, hengine⟩ := Ledger.mem_home_releaseAll.mp hx
      obtain ⟨o, ho⟩ := hs.homes x hx
      exact ⟨o, Ledger.mem_releaseAll.mpr ⟨ho.1, hcodec⟩, Ledger.mem_releaseAll.mpr ⟨ho.2, hengine⟩⟩
  | send r => exact hs.homes x hx
  | die pid => exact hs.homes x hx
  | register k pid h => exact hs.homes x hx
  | unregister k pid h => exact hs.homes x hx
  | begin r => exact hs.homes x hx
  | finish r => exact hs.homes x hx

theorem step (hs : Guarded s) (hlegal : s.Legal a) (hfirst : s.CallsFirst a)
    (hnames : s.NamesOwn a) (hgrants : s.GrantsUnnamed a) : Guarded (s.step a) where
  unique := hs.unique_step a
  deadNonzero := hs.deadNonzero_step hlegal
  oneOwner := hs.oneOwner_step hlegal
  owners := hs.owners_step hlegal hnames hgrants
  senders := hs.senders_step hlegal hnames
  codecFree := hs.codecFree_step hlegal hfirst
  engineFree := hs.engineFree_step hlegal hfirst hgrants
  homes := hs.homes_step hlegal hgrants

/-- A worker that deletes a codec or closes an engine does so while no call is
being executed that could mind. -/
theorem harmless_release (hs : Guarded s) {k : Kind} {pid : Pid} {h : Handle}
    (hlegal : s.Legal (.release k pid h)) : s.Harmless (.release k pid h) := by
  have hrelease : s.Outstanding (.release k pid h) := Or.inr ⟨_, hlegal, rfl⟩
  intro t ht codec hcallee
  cases t with
  | registering k' pid' h' => exact nomatch hcallee
  | releasing k' pid' h' => exact nomatch hcallee
  | running r =>
      have hr : s.Outstanding r := Or.inr ⟨_, ht, rfl⟩
      have hcodec : r.names = some ⟨.codec, codec⟩ := Request.names_of_callee hcallee
      constructor
      · intro hissued
        injection List.mem_singleton.mp hissued with hk hh
        subst hk hh
        have hpid := hs.senders r hr _ hrelease _ hcodec (Request.release_names ..)
        rw [Request.release_pid] at hpid
        exact hs.codecFree r hr codec hcallee (hpid ▸ hrelease)
      · rintro x hx rfl hissued
        cases List.mem_singleton.mp hissued
        -- codec and engine have one owner, which sent both requests
        obtain ⟨o, hopen, hopenEngine⟩ := hs.homes x hx
        have hpid : o = r.pid := hs.owners r hr _ hopen hcodec
        have hpid' := hs.owners _ hrelease _ hopenEngine (Request.release_names ..)
        rw [Request.release_pid] at hpid'
        cases hpid
        cases hpid'
        exact hs.engineFree r hr x.1 hcallee x.2 hx hrelease

/-- The cleanup is harmless exactly when it comes after the calls. -/
theorem harmless_obit (hs : Guarded s) {pid : Pid} (hlegal : s.Legal (.obit pid)) :
    s.Harmless (.obit pid) ↔ s.ObitAfterCalls (.obit pid) := by
  have hcalls : s.issued (.obit pid) = obitCalls s.clients pid :=
    dceCleanupCb_calls (hs.deadNonzero pid hlegal.1) hs.unique
  simp only [Harmless, ObitAfterCalls, hcalls, mem_obitCalls]

theorem harmless_iff (hs : Guarded s) (hlegal : s.Legal a) :
    s.Harmless a ↔ s.ObitAfterCalls a := by
  cases a with
  | release k pid h => exact iff_of_true (hs.harmless_release hlegal) trivial
  | obit pid => exact hs.harmless_obit hlegal
  | _ => exact iff_of_true (fun _ _ _ _ => ⟨List.not_mem_nil, fun _ _ _ => List.not_mem_nil⟩) trivial

end Guarded

/-- While clients name their own handles and handles are not reused under a
request that names them, no codec is deleted under a call and no engine closed
under one, exactly when no obit is handled while a call is executed on what the
slot of the dead client records. -/
theorem harmless_iff_obitAfterCalls {actions : List Action}
    (run : Run step (fun s a => s.Legal a ∧ s.CallsFirst a) zero actions)
    (hown : Run step (fun s a => s.NamesOwn a ∧ s.GrantsUnnamed a) zero actions) :
    Run step Harmless zero actions ↔ Run step ObitAfterCalls zero actions := by
  have hboth := (run_and _ _).mpr ⟨run, hown⟩
  have hiff : ∀ pre a, pre ++ [a] <+: actions →
      ((final step zero pre).Harmless a ↔ (final step zero pre).ObitAfterCalls a) := by
    intro pre a hpre
    have hs : Guarded (final step zero pre) :=
      (hboth.shorten ((List.prefix_append pre [a]).trans hpre)).invariant (I := Guarded)
        Guarded.zero fun s a hs h => hs.step h.1.1 h.1.2 h.2.1 h.2.2
    exact hs.harmless_iff ((run_iff_stepwise _ _).mp run pre a hpre).1
  rw [run_iff_stepwise, run_iff_stepwise]
  constructor
  · exact fun h pre a hpre => (hiff pre a hpre).mp (h pre a hpre)
  · exact fun h pre a hpre => (hiff pre a hpre).mpr (h pre a hpre)

section Runs

instance (s : State) (r : Request) : Decidable (s.Outstanding r) :=
  have := decidableForallMem s.tasks fun t => t.request ≠ some r
  decidable_of_iff (r ∈ s.waiting ∨ ¬∀ t ∈ s.tasks, t.request ≠ some r)
    (by simp only [Outstanding, ne_eq, not_forall, not_not, exists_prop])

instance decidableForallOutstanding (s : State) (P : Request → Prop) [DecidablePred P] :
    Decidable (∀ r, s.Outstanding r → P r) :=
  have := decidableForallMem s.waiting P
  have := decidableForallMem s.tasks fun t => ∀ r ∈ t.request, P r
  decidable_of_iff ((∀ r ∈ s.waiting, P r) ∧ ∀ t ∈ s.tasks, ∀ r ∈ t.request, P r) (by
    constructor
    · rintro ⟨hwait, htask⟩ r (hr | ⟨t, ht, hr⟩)
      · exact hwait r hr
      · exact htask t ht r hr
    · exact fun h => ⟨fun r hr => h r (Or.inl hr), fun t ht r hr => h r (Or.inr ⟨t, ht, hr⟩)⟩)

instance (s : State) : DecidablePred s.Harmless := fun _ => decidableForallMem ..

instance (s : State) : DecidablePred s.CallsFirst :=
  have : DecidablePred fun r => s.CallsFirst (.send r) := Request.decidable
  Action.decidable

instance (s : State) : DecidablePred s.NamesOwn := Action.decidable

instance (s : State) : DecidablePred s.GrantsUnnamed := Action.decidable

instance (s : State) : DecidablePred s.ObitAfterCalls := Action.decidable

/-- A client opens an engine and creates a codec on it. -/
def openCodec (pid : Pid) (engine codec : Handle) : List Action :=
  [.send (.engineOpen pid), .engineOpen pid engine, .register .engine pid engine,
    .send (.viddec3Create pid engine), .viddec3Create pid engine codec,
    .register .codec pid codec]

/-- The client dies while a frame of it is being decoded. -/
def obitDuringCall : List Action :=
  openCodec 7 100 200 ++
    [.send (.viddec3Process 7 200), .begin (.viddec3Process 7 200), .die 7, .obit 7]

/-- The client dies while its delete request still waits; the codec's handle is
given to another client, which is decoding when the old request is served. -/
def deleteOfDeadClient : List Action :=
  openCodec 7 100 200 ++ [.send (.viddec3Delete 7 200), .die 7, .obit 7] ++
    openCodec 9 101 200 ++ [.send (.viddec3Process 9 200), .begin (.viddec3Process 9 200),
      .unregister .codec 7 200, .release .codec 7 200]

/-- In both runs the last step deletes a codec that is decoding. -/
theorem codec_deleted_under_call :
    (Run step (fun s a => s.Legal a ∧ s.CallsFirst a) zero obitDuringCall ∧
      ¬Run step Harmless zero obitDuringCall) ∧
    Run step (fun s a => s.Legal a ∧ s.CallsFirst a) zero deleteOfDeadClient ∧
      ¬Run step Harmless zero deleteOfDeadClient := by
  decide +kernel

/-- A client ends its call and deletes the codec; another dies after its call. -/
def callsThenObit : List Action :=
  openCodec 7 100 200 ++ openCodec 9 101 201 ++
    [.send (.viddec3Process 9 201), .send (.viddec3Control 7 200), .begin (.viddec3Process 9 201),
      .begin (.viddec3Control 7 200), .finish (.viddec3Control 7 200),
      .send (.viddec3Delete 7 200), .unregister .codec 7 200, .release .codec 7 200,
      .die 7, .obit 7, .finish (.viddec3Process 9 201), .die 9, .obit 9]

theorem harmless_iff_obitAfterCalls_two : Run step Harmless zero callsThenObit := by
  have run : Run step (fun s a => s.Legal a ∧ s.CallsFirst a) zero callsThenObit := by
    decide +kernel
  have hown : Run step (fun s a => s.NamesOwn a ∧ s.GrantsUnnamed a) zero callsThenObit := by
    decide +kernel
  exact (harmless_iff_obitAfterCalls run hown).mpr (by decide +kernel)

end Runs

end State

end Libdce.Concurrency
