import Libdce.Firmware.IvahdClock
import Libdce.Foundation.Scripts
import Libdce.Host.Connection

/-!
# Bringing up the firmware

The task of the firmware registers the resource managers, resets IVA-HD with a boot code
for its two sequencers, attaches to the other processors, and starts the server. What the
hardware and the libraries answer decides how far it comes.

## Implementation notes

A register may read as anything: it is what the hardware answers. The traces of `DEBUG`
are left out, and with them two more reads of the clock register. The identifiers that
`MultiProc_getId` returns are those that are attached to.
-/

namespace Libdce.Firmware.Startup

open Foundation.Scripts Foundation.GuardedRuns Host

/-- The registers that are written on the way. -/
inductive Register where
  /-- `RM_IVAHD_RSTCTRL`. -/
  | rstctrl
  /-- `RM_IVAHD_RSTST`. -/
  | rstst
  /-- `CM_IVAHD_CLKSTCTRL`. -/
  | clkstctrl
  /-- `CM_IVAHD_CLKCTRL`. -/
  | clkctrl
  /-- `CM_IVAHD_SL2_CLKCTRL`. -/
  | sl2Clkctrl
  /-- `CM_DIV_M5_DPLL_IVA`. -/
  | divM5DpllIva
  deriving DecidableEq, Repr

/-- The sequencers of IVA-HD. -/
inductive Icont where
  | icont1
  | icont2
  deriving DecidableEq, Repr

/-- The other processors. -/
inductive Processor where
  | mpu
  | sysM3
  deriving DecidableEq, Repr

/-- The resource managers. -/
inductive Iresman where
  | hdvicp
  | tiledMemory
  deriving DecidableEq, Repr

inductive IresStatus where
  | ok
  | eexists
  | other
  deriving DecidableEq, Repr

/-- What is done to the hardware and asked of the libraries. -/
inductive Question where
  | read (r : Register)
  | write (r : Register) (v : Word)
  /-- A word of the memory of a sequencer is written. -/
  | itcm (icont : Icont) (i : ℕ) (v : Word)
  | ceRuntimeInit
  | rmanInit
  | rmanRegister (manager : Iresman)
  | ipcStart
  | getId (processor : Processor)
  | ipcAttach (id : BitVec 16)
  | rcmServerCreate
  | addSymbol (f : Fxn)
  | rcmServerStart
  | slpmRequest
  | slpmRegisterCallback
  deriving DecidableEq, Repr

/-- What is answered; `RcmServer_addSymbol` also sets an index. -/
def Question.Answer : Question → Type
  | .read _ | .ipcStart | .ipcAttach _ | .rcmServerCreate | .slpmRequest
  | .slpmRegisterCallback => Word
  | .write _ _ | .itcm _ _ _ | .ceRuntimeInit | .rcmServerStart => Unit
  | .rmanInit | .rmanRegister _ => IresStatus
  | .getId _ => BitVec 16
  | .addSymbol _ => Word × Word

abbrev Boot (β : Type) := Script Question.Answer β

open Script

/-- `icont_boot`. -/
def icontBoot : List Word :=
  [0xEA000006, 0xEAFFFFFE, 0xEAFFFFFE, 0xEAFFFFFE, 0xEAFFFFFE, 0xEAFFFFFE, 0xEAFFFFFE,
    0xEAFFFFFE, 0xE3A00000, 0xEE070F9A, 0xEE070F90, 0xE3A00000, 0xEAFFFFFE, 0xEAFFFFF1]

/-- `r = f(r)`. -/
def modify (r : Register) (f : Word → Word) : Boot Unit :=
  ask (.read r) fun v => ask (.write r (f v)) done

/-- Read a register until a value satisfies. -/
def await {β : Type} (r : Register) (stop : Word → Bool) (next : Boot β) : Boot β :=
  poll (.read r) stop fun _ => next

/-- `while (!(r & mask));` -/
def awaitSet {β : Type} (r : Register) (mask : Word) : Boot β → Boot β :=
  await r fun v => decide (v &&& mask ≠ 0)

/-- `while (r & mask);` -/
def awaitClear {β : Type} (r : Register) (mask : Word) : Boot β → Boot β :=
  await r fun v => decide (v &&& mask = 0)

/-- The loop that copies the boot code, from some word on. -/
def copyBoot : ℕ → List Word → Boot Unit
  | _, [] => done ()
  | i, v :: vs => ask (.itcm .icont1 i v) fun _ => ask (.itcm .icont2 i v) fun _ => copyBoot (i + 1) vs

/-- `HDVICP_Reset`. -/
def hdvicpReset : Boot Word :=
  (modify .clkstctrl (· ||| 0x3)).bind fun _ =>
  awaitSet .clkctrl 0x40000 <|
  ask (.write .clkctrl 0) fun _ =>
  ask (.write .sl2Clkctrl 0) fun _ =>
  awaitSet .clkctrl 0x30000 <|
  awaitSet .sl2Clkctrl 0x30000 <|
  (modify .rstctrl (· ||| 0x7)).bind fun _ =>
  (modify .rstst (· ||| 0x7)).bind fun _ =>
  (copyBoot 0 icontBoot).bind fun _ =>
  (modify .clkstctrl (· &&& 0x2)).bind fun _ =>
  ask (.write .clkctrl 1) fun _ =>
  ask (.write .sl2Clkctrl 1) fun _ =>
  (modify .rstctrl (· &&& 0xFFFFFFFB)).bind fun _ =>
  awaitClear .clkctrl 0x30000 <|
  awaitClear .sl2Clkctrl 0x30000 <|
  done 1

/-- `init_IVAHDFrwk`. -/
def initIvahdFrwk : Boot Unit :=
  ask .ceRuntimeInit fun _ =>
  ask .rmanInit fun ret : IresStatus =>
    if ret ≠ .ok then done ()
    else ask (.rmanRegister .hdvicp) fun ret : IresStatus =>
      if ret ≠ .ok ∧ ret ≠ .eexists then done ()
      else ask (.rmanRegister .tiledMemory) fun _ => done ()

/-- The `SETUP_FXN` lines of the server, and what follows them. -/
def registerFxns (next : Boot Word) : List Fxn → Boot Word
  | [] => next
  | f :: fs => ask (.addSymbol f) fun ((e, i) : Word × Word) =>
      if failed e ∨ i = 0xffffffff then done e else registerFxns next fs

/-- `dce_init` of the server. -/
def serverInit : Boot Word :=
  ask .rcmServerCreate fun err : Word =>
    if failed err then done err
    else
      registerFxns (ask .rcmServerStart fun _ => ask .slpmRequest fun _ =>
        ask .slpmRegisterCallback fun err : Word => done err) Fxn.all

/-- `do status = Ipc_attach(id); while (status < 0);` for the identifier of a processor. -/
def attach {β : Type} (p : Processor) (next : Boot β) : Boot β :=
  ask (.getId p) fun id : BitVec 16 =>
    poll (.ipcAttach id) (fun status : Word => !failed status) fun _ => next

/-- How `platform_init` comes to its end. -/
inductive Outcome where
  /-- `Ipc_start` has failed. -/
  | ipcFailed
  /-- `dce_init` has returned. -/
  | served (err : Word)
  deriving DecidableEq, Repr

/-- `platform_init`. -/
def platformInit : Boot Outcome :=
  (modify .divM5DpllIva (setIvahdOpp 0)).bind fun _ =>
  ask .ipcStart fun status : Word =>
    if failed status then done .ipcFailed
    else attach .mpu <| attach .sysM3 <| serverInit.bind fun err => done (.served err)

/-- `Ducati_AppTask` up to the loop in which it sleeps. -/
def appTask : Boot Outcome :=
  initIvahdFrwk.bind fun _ => hdvicpReset.bind fun _ => platformInit

/-- What is known of a module of IVA-HD. -/
inductive Module where
  | unknown
  | standby
  | stopping
  | stopped
  | starting
  | running
  deriving DecidableEq, Repr

/-- What is known when the clock register of the module has been read. -/
def Module.read (v : Word) : Module → Module
  | .unknown => if v &&& 0x40000 ≠ 0 then .standby else .unknown
  | .stopping => if v &&& 0x30000 ≠ 0 then .stopped else .stopping
  | .starting => if v &&& 0x30000 = 0 then .running else .starting
  | known => known

/-- And when it has been written. -/
def Module.written (v : Word) : Module := if v = 0 then .stopping else .starting

/-- What has come of the start so far. -/
structure Bringup where
  clk : Module
  sl2 : Module
  /-- What `RM_IVAHD_RSTCTRL` was last read as. -/
  seen : Option Word
  /-- What it was last written. -/
  rstctrl : Option Word
  /-- The words in the memories of the sequencers. -/
  loaded : Icont → List Word
  divider : Option Word
  ipc : Bool
  id : Processor → Option (BitVec 16)
  attached : List (BitVec 16)
  server : Bool
  symbols : List Fxn
  /-- The answer to a registration that failed. -/
  refused : Option (Word × Word)
  started : Bool
  /-- What the registration of the callback returned. -/
  callback : Option Word

namespace Bringup

/-- Out of reset, nothing is known and nothing done. -/
def start : Bringup where
  clk := .unknown
  sl2 := .unknown
  seen := none
  rstctrl := none
  loaded := fun _ => []
  divider := none
  ipc := false
  id := fun _ => none
  attached := []
  server := false
  symbols := []
  refused := none
  started := false
  callback := none

/-- Both modules have been seen to be off. -/
def Stopped (m : Bringup) : Prop := m.clk = .stopped ∧ m.sl2 = .stopped

/-- Both sequencers have their boot code. -/
def Loaded (m : Bringup) : Prop := ∀ c, m.loaded c = icontBoot

/-- IVA-HD has been reset. -/
def Reset (m : Bringup) : Prop := m.Loaded ∧ m.clk = .running ∧ m.sl2 = .running

/-- The host is attached to, and the other M3 after it. -/
def Attached (m : Bringup) : Prop :=
  ∃ mpu sysM3, m.id .mpu = some mpu ∧ m.id .sysM3 = some sysM3 ∧ m.attached = [mpu, sysM3]

/-- What may be done at this point. -/
def allows (m : Bringup) : Question → Prop
  | .write .clkctrl v => v = 0 ∧ m.clk = .standby ∨ v = 1 ∧ m.Loaded
  | .write .sl2Clkctrl v => v = 0 ∧ m.clk = .stopping ∨ v = 1 ∧ m.Loaded
  | .write .rstctrl v => ∃ w, m.seen = some w ∧
      (m.Stopped ∧ v = w ||| 0x7 ∨ m.Loaded ∧ v = w &&& 0xFFFFFFFB)
  | .itcm c i v => m.Stopped ∧ (∃ w, m.rstctrl = some w ∧ w &&& 0x7 = 0x7) ∧
      i = (m.loaded c).length ∧ icontBoot[i]? = some v
  | .ipcStart => m.Reset ∧ ∃ v, m.divider = some v ∧ v &&& 0x11f = 0x10e
  | .ipcAttach id => m.ipc = true ∧ (m.id .mpu = some id ∧ m.attached = [] ∨
      m.id .sysM3 = some id ∧ ∃ mpu, m.id .mpu = some mpu ∧ m.attached = [mpu])
  | .rcmServerCreate => m.Attached ∧ m.server = false
  | .addSymbol f => m.server = true ∧ m.refused = none ∧ Fxn.all[m.symbols.length]? = some f
  | .rcmServerStart => m.symbols = Fxn.all ∧ m.started = false
  | .slpmRegisterCallback => m.started = true ∧ m.callback = none
  | _ => True

/-- What becomes of it. -/
def next (m : Bringup) : (q : Question) → q.Answer → Bringup
  | .read .clkctrl, (v : Word) => { m with clk := m.clk.read v }
  | .read .sl2Clkctrl, (v : Word) => { m with sl2 := m.sl2.read v }
  | .read .rstctrl, (v : Word) => { m with seen := some v }
  | .write .clkctrl v, _ => { m with clk := .written v }
  | .write .sl2Clkctrl v, _ => { m with sl2 := .written v }
  | .write .rstctrl v, _ => { m with rstctrl := some v }
  | .write .divM5DpllIva v, _ => { m with divider := some v }
  | .itcm c _ v, _ => { m with loaded := Function.update m.loaded c (m.loaded c ++ [v]) }
  | .getId p, (id : BitVec 16) => { m with id := Function.update m.id p (some id) }
  | .ipcStart, (status : Word) => { m with ipc := !failed status }
  | .ipcAttach id, (status : Word) =>
      if failed status then m else { m with attached := m.attached ++ [id] }
  | .rcmServerCreate, (err : Word) => { m with server := !failed err }
  | .addSymbol f, ((e, i) : Word × Word) =>
      if failed e ∨ i = 0xffffffff then { m with refused := some (e, i) }
      else { m with symbols := m.symbols ++ [f] }
  | .rcmServerStart, _ => { m with started := true }
  | .slpmRegisterCallback, (err : Word) => { m with callback := some err }
  | _, _ => m

def monitor : Monitor Question.Answer Bringup := ⟨allows, next⟩

section Reset

variable {m : Bringup} {β : Type} {post : β → Bringup → Prop}

theorem wp_modify {r : Register} {f : Word → Word} {post : Unit → Bringup → Prop}
    (hwrite : ∀ v : Word, (m.next (.read r) v).allows (.write r (f v)))
    (hpost : ∀ v : Word, post () ((m.next (.read r) v).next (.write r (f v)) ())) :
    (modify r f).wp monitor post m :=
  ⟨by cases r <;> trivial, fun v => ⟨hwrite v, fun _ => hpost v⟩⟩

/-- Waiting changes what is known with the value that is waited for. -/
theorem wp_await {r : Register} {stop : Word → Bool} {rest : Boot β} {m' : Bringup}
    (hallowed : m.allows (.read r))
    (hread : ∀ v : Word, m.next (.read r) v = if stop v then m' else m)
    (hrest : rest.wp monitor post m') : (await r stop rest).wp monitor post m := by
  apply wp_poll hallowed
  · intro (v : Word) (hv : stop v = false)
    have hsame : m.next (.read r) v = m := by rw [hread, hv, if_neg Bool.false_ne_true]
    exact hsame
  · intro (v : Word) (hv : stop v = true)
    have hknown : m.next (.read r) v = m' := by rw [hread, if_pos hv]
    rw [← hknown] at hrest
    exact hrest

/-- Waiting for a module. -/
theorem wp_await_clk (known : Module) {stop : Word → Bool} {rest : Boot β}
    (hread : ∀ v, m.clk.read v = if stop v then known else m.clk)
    (hrest : rest.wp monitor post { m with clk := known }) :
    (await .clkctrl stop rest).wp monitor post m := by
  refine wp_await trivial (fun v => ?_) hrest
  calc
    m.next (.read .clkctrl) v = { m with clk := if stop v then known else m.clk } := by
      rw [← hread]
      rfl
    _ = if stop v then { m with clk := known } else m :=
      apply_ite (fun clk => { m with clk := clk }) _ _ _

theorem wp_await_sl2 (known : Module) {stop : Word → Bool} {rest : Boot β}
    (hread : ∀ v, m.sl2.read v = if stop v then known else m.sl2)
    (hrest : rest.wp monitor post { m with sl2 := known }) :
    (await .sl2Clkctrl stop rest).wp monitor post m := by
  refine wp_await trivial (fun v => ?_) hrest
  calc
    m.next (.read .sl2Clkctrl) v = { m with sl2 := if stop v then known else m.sl2 } := by
      rw [← hread]
      rfl
    _ = if stop v then { m with sl2 := known } else m :=
      apply_ite (fun sl2 => { m with sl2 := sl2 }) _ _ _

/-- The boot code is copied to both sequencers. -/
theorem wp_copyBoot (pre : List Word) {vs : List Word} (hvs : pre ++ vs = icontBoot) (hstopped : m.Stopped)
    (hreset : ∃ w, m.rstctrl = some w ∧ w &&& 0x7 = 0x7) (hloaded : m.loaded = fun _ => pre) :
    (copyBoot pre.length vs).wp monitor
      (fun _ m' => m' = { m with loaded := fun _ => icontBoot }) m := by
  induction vs generalizing pre m with
  | nil =>
      rw [List.append_nil] at hvs
      rw [copyBoot, wp, ← hvs, ← hloaded]
  | cons v vs ih =>
      have hv : icontBoot[pre.length]? = some v := by
        rw [← hvs, List.getElem?_append_right le_rfl, Nat.sub_self, List.getElem?_cons_zero]
      let m₁ := m.next (.itcm .icont1 pre.length v) ()
      let m₂ := m₁.next (.itcm .icont2 pre.length v) ()
      have hother : m₁.loaded .icont2 = pre := by
        simp [m₁, next, hloaded]
      have hboth : m₂.loaded = fun _ => pre ++ [v] := by
        funext c
        cases c <;> simp [m₁, m₂, next, hloaded]
      have hrest := ih (m := m₂) (pre ++ [v]) (by rw [List.append_assoc]; exact hvs)
        hstopped hreset hboth
      rw [List.length_append, List.length_singleton] at hrest
      refine ⟨⟨hstopped, hreset, by rw [hloaded], hv⟩, fun _ =>
        ⟨⟨hstopped, hreset, congrArg List.length hother.symm, hv⟩, fun _ => hrest⟩⟩

/-- What has been reset, and how. -/
def ResetFrom (m m' : Bringup) : Prop :=
  ∃ seen v, m' = { m with
    clk := .running, sl2 := .running, seen := seen, rstctrl := some (v &&& 0xFFFFFFFB)
    loaded := fun _ => icontBoot }

/-- IVA-HD is reset in the order in which it must be. -/
theorem wp_hdvicpReset (hclk : m.clk = .unknown) (hloaded : m.loaded = fun _ => []) :
    hdvicpReset.wp monitor (fun _ m' => m.ResetFrom m') m := by
  obtain ⟨clk, sl2, seen, rstctrl, loaded, divider, ipc, id, attached, server, symbols, refused, started,
    callback⟩ := m
  dsimp only at hclk hloaded
  subst hclk hloaded
  rw [hdvicpReset]
  apply wp_bind
  apply wp_modify
  · exact fun _ => trivial
  intro _
  refine wp_await_clk .standby ?_ ?_
  · exact fun v => (if_congr decide_eq_true_iff rfl rfl).symm
  refine ⟨Or.inl ⟨rfl, rfl⟩, fun _ => ⟨Or.inl ⟨rfl, rfl⟩, fun _ => ?_⟩⟩
  refine wp_await_clk .stopped ?_ (wp_await_sl2 .stopped ?_ ?_)
  · exact fun v => (if_congr decide_eq_true_iff rfl rfl).symm
  · exact fun v => (if_congr decide_eq_true_iff rfl rfl).symm
  -- both modules are off
  apply wp_bind
  apply wp_modify
  · exact fun v => ⟨v, rfl, Or.inl ⟨⟨rfl, rfl⟩, rfl⟩⟩
  intro v
  apply wp_bind
  apply wp_modify
  · exact fun _ => trivial
  intro _
  have hreset : (v ||| 0x7) &&& 0x7 = 0x7 := by
    ext i hi
    simp only [BitVec.getElem_and, BitVec.getElem_or]
    cases (0x7 : Word)[i] <;> simp
  apply wp_bind
  refine wp_mono (wp_copyBoot [] rfl ⟨rfl, rfl⟩ ⟨_, rfl, hreset⟩ rfl) ?_
  rintro _ _ rfl
  -- both sequencers are loaded
  apply wp_bind
  apply wp_modify
  · exact fun _ => trivial
  intro _
  refine ⟨Or.inr ⟨rfl, fun _ => rfl⟩, fun _ => ⟨Or.inr ⟨rfl, fun _ => rfl⟩, fun _ => ?_⟩⟩
  apply wp_bind
  apply wp_modify
  · exact fun w => ⟨w, rfl, Or.inr ⟨fun _ => rfl, rfl⟩⟩
  intro w
  refine wp_await_clk .running ?_ (wp_await_sl2 .running ?_ ?_)
  · exact fun v => (if_congr decide_eq_true_iff rfl rfl).symm
  · exact fun v => (if_congr decide_eq_true_iff rfl rfl).symm
  exact ⟨some w, w, rfl⟩

/-- The resource managers are registered or not. -/
theorem wp_initIvahdFrwk : initIvahdFrwk.wp monitor (fun _ m' => m' = m) m := by
  refine ⟨trivial, fun _ => ⟨trivial, fun (ret : IresStatus) => ?_⟩⟩
  cases ret with
  | ok =>
      refine ⟨trivial, fun (ret : IresStatus) => ?_⟩
      cases ret with
      | other => rfl
      | _ => exact ⟨trivial, fun _ => rfl⟩
  | _ => rfl

end Reset

section Server

variable {m : Bringup}

/-- There is no server yet. -/
structure Unserved (m : Bringup) : Prop where
  server : m.server = false
  symbols : m.symbols = []
  refused : m.refused = none
  started : m.started = false
  callback : m.callback = none

/-- How `dce_init` has come to return a value. -/
inductive Served (err : Word) (m : Bringup) : Prop where
  | notCreated (hm : m.Unserved) (herr : failed err = true)
  | refused (hstarted : m.started = false) (hcallback : m.callback = none) (f : Fxn) (i : Word)
      (hnext : Fxn.all[m.symbols.length]? = some f) (hrefused : m.refused = some (err, i))
      (hreason : failed err = true ∨ i = 0xffffffff)
  | started (hstarted : m.started = true) (hsymbols : m.symbols = Fxn.all)
      (hrefused : m.refused = none) (hcallback : m.callback = some err)

/-- What the value tells of the server. -/
theorem Served.value {err : Word} (h : Served err m) :
    (m.started = true ↔ ∀ f, f ∈ m.symbols) ∧ (m.started = true ↔ m.callback = some err) ∧
      (¬m.started = true ∧ failed err = false ↔
        failed err = false ∧ m.refused = some (err, 0xffffffff)) := by
  cases h with
  | notCreated hm herr =>
      have hstill : ¬m.started = true := ne_true_of_eq_false hm.started
      refine ⟨iff_of_false hstill fun h => ?_, iff_of_false hstill ?_, iff_of_false ?_ ?_⟩
      · have hmem := h .engineOpen
        rw [hm.symbols] at hmem
        cases hmem
      · rw [hm.callback]
        nofun
      · exact fun h => ne_true_of_eq_false h.2 herr
      · exact fun h => ne_true_of_eq_false h.1 herr
  | refused hstill hnone f i hnext hrefusal hreason =>
      have hstill : ¬m.started = true := ne_true_of_eq_false hstill
      refine ⟨iff_of_false hstill fun h => ?_, iff_of_false hstill ?_, ?_⟩
      · -- fewer functions than there are have been taken
        have hlength : Fxn.all.length ≤ m.symbols.length :=
          List.Nodup.length_le_of_subset (by decide) fun f _ => h f
        exact absurd (List.getElem?_eq_some_iff.mp hnext).1 hlength.not_gt
      · rw [hnone]
        nofun
      · rw [hrefusal]
        constructor
        · rintro ⟨-, herr⟩
          refine ⟨herr, ?_⟩
          obtain hfailed | rfl := hreason
          · exact absurd hfailed (ne_true_of_eq_false herr)
          · rfl
        · rintro ⟨herr, -⟩
          exact ⟨hstill, herr⟩
  | started hdone hall hnone hregistered =>
      refine ⟨iff_of_true hdone fun f => ?_, iff_of_true hdone hregistered, iff_of_false ?_ ?_⟩
      · rw [hall]
        exact f.mem_all
      · exact fun h => h.1 hdone
      · rw [hnone]
        nofun

theorem wp_registerFxns (pre : List Fxn) {fs : List Fxn} {rest : Boot Word} (hfs : pre ++ fs = Fxn.all)
    (hserver : m.server = true) (hrefused : m.refused = none) (hsymbols : m.symbols = pre)
    (hstarted : m.started = false) (hcallback : m.callback = none)
    (hrest : rest.wp monitor Served { m with symbols := Fxn.all }) :
    (registerFxns rest fs).wp monitor Served m := by
  induction fs generalizing pre m with
  | nil =>
      rw [List.append_nil] at hfs
      subst hfs
      rw [← hsymbols] at hrest
      exact hrest
  | cons f fs ih =>
      have hnext : Fxn.all[m.symbols.length]? = some f := by
        rw [hsymbols, ← hfs, List.getElem?_append_right le_rfl, Nat.sub_self, List.getElem?_cons_zero]
      refine ⟨⟨hserver, hrefused, hnext⟩, ?_⟩
      rintro ⟨e, i⟩
      show (if failed e = true ∨ i = 0xffffffff then done e else registerFxns rest fs).wp monitor Served
        (if failed e = true ∨ i = 0xffffffff then { m with refused := some (e, i) }
          else { m with symbols := m.symbols ++ [f] })
      by_cases hbad : failed e = true ∨ i = 0xffffffff
      · rw [if_pos hbad, if_pos hbad]
        exact .refused hstarted hcallback f i hnext rfl hbad
      · rw [if_neg hbad, if_neg hbad]
        apply ih (m := { m with symbols := m.symbols ++ [f] }) (pre ++ [f])
        · rw [List.append_assoc]
          exact hfs
        · exact hserver
        · exact hrefused
        · exact congrArg (· ++ [f]) hsymbols
        · exact hstarted
        · exact hcallback
        · exact hrest

/-- The server is started with all its functions. -/
theorem wp_serverInit (hattached : m.Attached) (hm : m.Unserved) :
    serverInit.wp monitor Served m := by
  refine ⟨⟨hattached, hm.server⟩, fun (err : Word) => ?_⟩
  show (if failed err = true then done err else _).wp monitor Served { m with server := !failed err }
  cases herr : failed err with
  | true => exact .notCreated ⟨rfl, hm.symbols, hm.refused, hm.started, hm.callback⟩ herr
  | false =>
      refine wp_registerFxns [] rfl rfl hm.refused hm.symbols hm.started hm.callback ?_
      refine ⟨⟨rfl, hm.started⟩, fun _ => ⟨trivial, fun _ => ⟨⟨rfl, hm.callback⟩, fun err => ?_⟩⟩⟩
      exact .started rfl rfl hm.refused rfl

/-- A processor is attached to, however often it takes. -/
theorem wp_attach {β : Type} {post : β → Bringup → Prop} {p : Processor} {rest : Boot β}
    (hallowed : ∀ id, allows { m with id := Function.update m.id p (some id) } (.ipcAttach id))
    (hrest : ∀ id, rest.wp monitor post
      { m with id := Function.update m.id p (some id), attached := m.attached ++ [id] }) :
    (attach p rest).wp monitor post m := by
  refine ⟨trivial, fun (id : BitVec 16) => wp_poll (hallowed id) ?_ ?_⟩
  · intro (status : Word) (hstatus : (!failed status) = false)
    exact if_pos (by simpa using hstatus)
  · intro (status : Word) (hstatus : (!failed status) = true)
    have hnext : monitor.next { m with id := Function.update m.id p (some id) } (.ipcAttach id) status =
        { m with id := Function.update m.id p (some id), attached := m.attached ++ [id] } :=
      if_neg (by simpa using hstatus)
    exact hnext ▸ hrest id

/-- How the start has ended. -/
def Ended (m : Bringup) : Outcome → Prop
  | .ipcFailed => m.ipc = false ∧ m.started = false
  | .served err => Served err m

/-- Everything after the reset. -/
theorem wp_platformInit (hreset : m.Reset) (hattached : m.attached = []) (hm : m.Unserved) :
    platformInit.wp monitor (fun outcome m' => m'.Ended outcome) m := by
  rw [platformInit]
  apply wp_bind
  apply wp_modify
  · exact fun _ => trivial
  intro v
  refine ⟨⟨hreset, _, rfl, storeField_and_field (by decide)⟩, fun (status : Word) => ?_⟩
  show (if failed status = true then (done .ipcFailed : Boot Outcome) else _).wp monitor _
    { m with divider := _, ipc := !failed status }
  cases hstatus : failed status with
  | true => exact ⟨rfl, hm.started⟩
  | false =>
      have hmpu : ∀ id, Function.update m.id .mpu (some id) .mpu = some id :=
        fun id => Function.update_self ..
      have hsysM3 : ∀ mpu id, Function.update (Function.update m.id .mpu (some mpu)) .sysM3 (some id)
          .mpu = some mpu ∧ Function.update (Function.update m.id .mpu (some mpu)) .sysM3 (some id)
          .sysM3 = some id := by
        intro mpu id
        rw [Function.update_of_ne (by decide)]
        exact ⟨hmpu mpu, Function.update_self ..⟩
      have happend : ∀ ids : List (BitVec 16), m.attached ++ ids = ids := by
        intro ids
        rw [hattached, List.nil_append]
      refine wp_attach ?_ fun mpu => wp_attach ?_ fun sysM3 => wp_bind ?_
      · exact fun id => ⟨rfl, Or.inl ⟨hmpu id, hattached⟩⟩
      · exact fun id => ⟨rfl, Or.inr ⟨(hsysM3 mpu id).2, mpu, (hsysM3 mpu id).1, happend [mpu]⟩⟩
      · refine wp_serverInit ⟨mpu, sysM3, (hsysM3 mpu sysM3).1, (hsysM3 mpu sysM3).2, ?_⟩
          ⟨hm.server, hm.symbols, hm.refused, hm.started, hm.callback⟩
        rw [List.append_assoc]
        exact happend [mpu, sysM3]

/-- The whole start. -/
theorem wp_appTask : appTask.wp monitor (fun outcome m' => m'.Ended outcome) start := by
  refine wp_bind (wp_mono wp_initIvahdFrwk ?_)
  rintro _ _ rfl
  refine wp_bind (wp_mono (wp_hdvicpReset rfl rfl) ?_)
  rintro _ _ ⟨seen, v, rfl⟩
  exact wp_platformInit ⟨fun _ => rfl, rfl, rfl⟩ rfl ⟨rfl, rfl, rfl, rfl, rfl⟩

/-- Only three questions change what is known of the server once it is there. -/
theorem step_cases (m : Bringup) (e : Event Question.Answer) :
    (∃ f err i, e = ⟨.addSymbol f, ((err, i) : Word × Word)⟩) ∨ e = ⟨.rcmServerStart, ()⟩ ∨
      (∃ err : Word, e = ⟨.slpmRegisterCallback, err⟩) ∨
      ((∀ f, e.1 ≠ .addSymbol f) ∧ e.1 ≠ .rcmServerStart ∧ e.1 ≠ .slpmRegisterCallback ∧
        (monitor.step m e).symbols = m.symbols ∧ (monitor.step m e).refused = m.refused ∧
        (monitor.step m e).started = m.started ∧ (monitor.step m e).callback = m.callback) := by
  obtain ⟨q, a⟩ := e
  cases q with
  | addSymbol f => exact Or.inl ⟨f, a.1, a.2, rfl⟩
  | rcmServerStart => exact Or.inr (Or.inl rfl)
  | slpmRegisterCallback => exact Or.inr (Or.inr (Or.inl ⟨a, rfl⟩))
  | read r => cases r <;> exact Or.inr (Or.inr (Or.inr ⟨nofun, nofun, nofun, rfl, rfl, rfl, rfl⟩))
  | write r v => cases r <;> exact Or.inr (Or.inr (Or.inr ⟨nofun, nofun, nofun, rfl, rfl, rfl, rfl⟩))
  | ipcAttach id =>
      refine Or.inr (Or.inr (Or.inr ⟨nofun, nofun, nofun, ?_⟩))
      by_cases hstatus : failed (a : Word) = true
      · have hstep : monitor.step m ⟨.ipcAttach id, a⟩ = m := if_pos hstatus
        rw [hstep]
        exact ⟨rfl, rfl, rfl, rfl⟩
      · have hstep : monitor.step m ⟨.ipcAttach id, a⟩ = { m with attached := m.attached ++ [id] } :=
          if_neg hstatus
        rw [hstep]
        exact ⟨rfl, rfl, rfl, rfl⟩
  | _ => exact Or.inr (Or.inr (Or.inr ⟨nofun, nofun, nofun, rfl, rfl, rfl, rfl⟩))

/-- The server has taken a function. -/
def Registers (f : Fxn) (e : Event Question.Answer) : Prop :=
  ∃ err i : Word, e = ⟨.addSymbol f, (err, i)⟩ ∧ ¬ (failed err = true ∨ i = 0xffffffff)

/-- It has refused one. -/
def Refuses (err i : Word) (e : Event Question.Answer) : Prop :=
  (failed err = true ∨ i = 0xffffffff) ∧ ∃ f, e = ⟨.addSymbol f, (err, i)⟩

theorem step_addSymbol (m : Bringup) (f : Fxn) (err i : Word) :
    monitor.step m ⟨.addSymbol f, ((err, i) : Word × Word)⟩ =
      if failed err = true ∨ i = 0xffffffff then { m with refused := some (err, i) }
      else { m with symbols := m.symbols ++ [f] } := rfl

variable {es : List (Event Question.Answer)}

theorem started_iff (haccepts : monitor.Accepts m es) :
    (final monitor.step m es).started = true ↔ m.started = true ∨ ⟨.rcmServerStart, ()⟩ ∈ es := by
  rw [Run.remembers (P := fun m => m.started = true) (E := (· = ⟨.rcmServerStart, ()⟩)) haccepts,
    exists_eq_right]
  rintro m e -
  obtain ⟨f, err, i, rfl⟩ | rfl | ⟨err, rfl⟩ | ⟨-, hstart, -, -, -, hstarted, -⟩ := step_cases m e
  · have hkept : (monitor.step m ⟨.addSymbol f, ((err, i) : Word × Word)⟩).started = m.started := by
      rw [step_addSymbol]
      split <;> rfl
    rw [hkept]
    exact (or_iff_left nofun).symm
  · exact iff_of_true rfl (Or.inr rfl)
  · exact (or_iff_left nofun).symm
  · rw [hstarted]
    exact (or_iff_left fun he => hstart (congrArg Sigma.fst he)).symm

theorem callback_iff (haccepts : monitor.Accepts m es) (err : Word) :
    (final monitor.step m es).callback = some err ↔
      m.callback = some err ∨ ⟨.slpmRegisterCallback, err⟩ ∈ es := by
  rw [Run.remembers (P := fun m => m.callback = some err) (E := (· = ⟨.slpmRegisterCallback, err⟩))
    haccepts, exists_eq_right]
  intro m e hok
  obtain ⟨f, err', i, rfl⟩ | rfl | ⟨err', rfl⟩ | ⟨-, -, hregister, -, -, -, hcallback⟩ := step_cases m e
  · have hkept : (monitor.step m ⟨.addSymbol f, ((err', i) : Word × Word)⟩).callback = m.callback := by
      rw [step_addSymbol]
      split <;> rfl
    rw [hkept]
    exact (or_iff_left nofun).symm
  · exact (or_iff_left nofun).symm
  · -- it is registered once
    have hnone : m.callback = none := hok.2
    rw [hnone, or_iff_right nofun]
    constructor
    · rintro ⟨⟩
      rfl
    · rintro ⟨⟩
      rfl
  · rw [hcallback]
    exact (or_iff_left fun he => hregister (congrArg Sigma.fst he)).symm

theorem mem_symbols_iff (haccepts : monitor.Accepts m es) (f : Fxn) :
    f ∈ (final monitor.step m es).symbols ↔ f ∈ m.symbols ∨ ∃ e ∈ es, Registers f e := by
  refine Run.remembers (P := fun m => f ∈ m.symbols) haccepts ?_
  rintro m e -
  obtain ⟨g, err, i, rfl⟩ | rfl | ⟨err, rfl⟩ | ⟨hadd, -, -, hsymbols, -⟩ := step_cases m e
  · rw [step_addSymbol]
    by_cases hbad : failed err = true ∨ i = 0xffffffff
    · rw [if_pos hbad]
      refine (or_iff_left ?_).symm
      rintro ⟨_, _, ⟨⟩, hgood⟩
      exact hgood hbad
    · rw [if_neg hbad, List.mem_append, List.mem_singleton]
      refine or_congr Iff.rfl ⟨?_, ?_⟩
      · rintro rfl
        exact ⟨err, i, rfl, hbad⟩
      · rintro ⟨_, _, ⟨⟩, -⟩
        rfl
  · exact (or_iff_left nofun).symm
  · exact (or_iff_left nofun).symm
  · rw [hsymbols]
    exact (or_iff_left fun ⟨_, _, he, _⟩ => hadd f (congrArg Sigma.fst he)).symm

theorem refused_iff (haccepts : monitor.Accepts m es) (err i : Word) :
    (final monitor.step m es).refused = some (err, i) ↔
      m.refused = some (err, i) ∨ ∃ e ∈ es, Refuses err i e := by
  refine Run.remembers (P := fun m => m.refused = some (err, i)) haccepts ?_
  intro m e hok
  obtain ⟨f, err', i', rfl⟩ | rfl | ⟨err', rfl⟩ | ⟨hadd, -, -, -, hrefused, -⟩ := step_cases m e
  · -- only the first refusal is asked for
    have hnone : m.refused ≠ some (err, i) := by
      rw [hok.2.1]
      nofun
    rw [step_addSymbol, or_iff_right hnone]
    by_cases hbad : failed err' = true ∨ i' = 0xffffffff
    · rw [if_pos hbad]
      constructor
      · rintro ⟨⟩
        exact ⟨hbad, f, rfl⟩
      · rintro ⟨-, _, ⟨⟩⟩
        rfl
    · rw [if_neg hbad]
      refine iff_of_false ?_ ?_
      · exact hnone
      · rintro ⟨hreason, _, ⟨⟩⟩
        exact hbad hreason
  · exact (or_iff_left nofun).symm
  · exact (or_iff_left nofun).symm
  · rw [hrefused]
    exact (or_iff_left fun ⟨_, f, he⟩ => hadd f (congrArg Sigma.fst he)).symm

end Server

end Bringup

section Runs

open Bringup

variable {ω : Type} (env : Environment Question.Answer ω) (w : ω) (n : ℕ)

/-- Whatever the hardware and the libraries answer, everything is done in its order: the
sequencers get their code in reset and with both modules off, the modules are switched on
and the SL2 reset is lifted when both have the whole code, the clock is idle and IVA-HD
reset when IPC starts, the host is attached to before the other M3 and both before there is
a server, and the server starts when all functions are registered, and before the callback
is. When the start is over, its outcome tells what has been done. -/
theorem startup_in_order :
    monitor.Accepts start (after env ⟨[], appTask, w⟩ n).asked ∧
      ∀ outcome, (after env ⟨[], appTask, w⟩ n).script.result = some outcome →
        (final monitor.step start (after env ⟨[], appTask, w⟩ n).asked).Ended outcome := by
  have hstart : monitor.Accepts start [] := trivial
  obtain ⟨haccepts, hwp⟩ := wp_after env (s := ⟨[], appTask, w⟩) hstart wp_appTask n
  exact ⟨haccepts, fun outcome hresult => (wp_result hwp hresult :)⟩

/-- Hardware and libraries with which all goes well; the state is whether IVA-HD is
enabled. -/
def willing : Environment Question.Answer Bool
  | enabled, .read .clkctrl | enabled, .read .sl2Clkctrl =>
      ((if enabled then 0 else 0x70000 : Word), enabled)
  | _, .write .clkctrl v => ((), v == 1)
  | enabled, .getId .mpu => ((3 : BitVec 16), enabled)
  | enabled, .getId .sysM3 => ((1 : BitVec 16), enabled)
  | enabled, .addSymbol _ => (((0, 7) : Word × Word), enabled)
  | enabled, .rmanInit | enabled, .rmanRegister _ => (IresStatus.ok, enabled)
  | enabled, .write _ _ | enabled, .itcm _ _ _ | enabled, .ceRuntimeInit
  | enabled, .rcmServerStart => ((), enabled)
  | enabled, .read _ | enabled, .ipcStart | enabled, .ipcAttach _ | enabled, .rcmServerCreate
  | enabled, .slpmRequest | enabled, .slpmRegisterCallback => ((0 : Word), enabled)

theorem startup_in_order_willing :
    (final monitor.step start (after willing ⟨[], appTask, false⟩ 100).asked).Ended (.served 0) :=
  (startup_in_order willing false 100).2 _ (by decide +kernel)

/-- What is left of a `dce_init` that has returned: the server has been started exactly when
it has taken all functions, and then the value is what the registration of the callback
has returned, whatever the request before it did. There is a value that does not report a
failure although the server has not been started: that of a refusal by the index alone. -/
theorem served_value {err : Word}
    (hserved : (after env ⟨[], appTask, w⟩ n).script.result = some (.served err)) :
    let es := (after env ⟨[], appTask, w⟩ n).asked
    (⟨.rcmServerStart, ()⟩ ∈ es ↔ ∀ f, ∃ e ∈ es, Registers f e) ∧
      (⟨.rcmServerStart, ()⟩ ∈ es ↔ ⟨.slpmRegisterCallback, err⟩ ∈ es) ∧
      (⟨.rcmServerStart, ()⟩ ∉ es ∧ failed err = false ↔
        failed err = false ∧ ∃ e ∈ es, Refuses err 0xffffffff e) := by
  intro es
  have hstart : monitor.Accepts start [] := trivial
  obtain ⟨haccepts, hwp⟩ := wp_after env (s := ⟨[], appTask, w⟩) hstart wp_appTask n
  have hended : Served err (final monitor.step start es) := (wp_result hwp hserved :)
  have hstarted : (final monitor.step start es).started = true ↔ ⟨.rcmServerStart, ()⟩ ∈ es :=
    (started_iff haccepts).trans (or_iff_right nofun)
  have hcallback : (final monitor.step start es).callback = some err ↔
      ⟨.slpmRegisterCallback, err⟩ ∈ es :=
    (callback_iff haccepts err).trans (or_iff_right nofun)
  have hsymbols : ∀ f, f ∈ (final monitor.step start es).symbols ↔ ∃ e ∈ es, Registers f e :=
    fun f => (mem_symbols_iff haccepts f).trans (or_iff_right nofun)
  have hrefused : (final monitor.step start es).refused = some (err, 0xffffffff) ↔
      ∃ e ∈ es, Refuses err 0xffffffff e :=
    (refused_iff haccepts err 0xffffffff).trans (or_iff_right nofun)
  rw [← hstarted, ← hcallback, ← hrefused]
  simp only [← hsymbols]
  exact hended.value

theorem served_value_willing :
    ⟨.rcmServerStart, ()⟩ ∈ (after willing ⟨[], appTask, false⟩ 100).asked ↔
      ⟨.slpmRegisterCallback, (0 : Word)⟩ ∈ (after willing ⟨[], appTask, false⟩ 100).asked :=
  (served_value willing false 100 (by decide +kernel)).2.1

/-- What the start waits for: a state of a module, or another processor. -/
def Waits : (q : Question) → (q.Answer → Bool) → Prop
  | .read .clkctrl, stop => stop = (fun v : Word => decide (v &&& 0x40000 ≠ 0)) ∨
      stop = (fun v : Word => decide (v &&& 0x30000 ≠ 0)) ∨
      stop = (fun v : Word => decide (v &&& 0x30000 = 0))
  | .read .sl2Clkctrl, stop => stop = (fun v : Word => decide (v &&& 0x30000 ≠ 0)) ∨
      stop = (fun v : Word => decide (v &&& 0x30000 = 0))
  | .ipcAttach _, stop => stop = fun status : Word => !failed status
  | _, _ => False

theorem polls_copyBoot (i : ℕ) (vs : List Word) : (copyBoot i vs).Polls Waits := by
  induction vs generalizing i with
  | nil => trivial
  | cons v vs ih => exact fun _ _ => ih (i + 1)

theorem polls_hdvicpReset : hdvicpReset.Polls Waits := by
  have hmodify : ∀ r f, (modify r f).Polls Waits := fun _ _ _ _ => trivial
  refine (hmodify _ _).bind fun _ => ⟨Or.inl rfl, fun _ _ _ => ?_⟩
  refine ⟨Or.inr (Or.inl rfl), fun _ => ⟨Or.inl rfl, fun _ => ?_⟩⟩
  refine (hmodify _ _).bind fun _ => (hmodify _ _).bind fun _ => ?_
  refine (polls_copyBoot 0 icontBoot).bind fun _ => (hmodify _ _).bind fun _ _ _ => ?_
  refine (hmodify _ _).bind fun _ => ⟨Or.inr (Or.inr rfl), fun _ => ⟨Or.inr rfl, fun _ => trivial⟩⟩

theorem polls_registerFxns {rest : Boot Word} (hrest : rest.Polls Waits) (fs : List Fxn) :
    (registerFxns rest fs).Polls Waits := by
  induction fs with
  | nil => exact hrest
  | cons f fs ih =>
      rintro ⟨e, i⟩
      show (if failed e = true ∨ i = 0xffffffff then done e else registerFxns rest fs).Polls Waits
      split
      · trivial
      · exact ih

theorem polls_serverInit : serverInit.Polls Waits := by
  intro (err : Word)
  show (if failed err = true then done err else _).Polls Waits
  split
  · trivial
  · refine polls_registerFxns ?_ Fxn.all
    exact fun _ _ _ => trivial

theorem polls_initIvahdFrwk : initIvahdFrwk.Polls Waits := by
  intro _ (ret : IresStatus)
  cases ret with
  | ok =>
      intro (ret : IresStatus)
      cases ret with
      | other => trivial
      | _ => exact fun _ => trivial
  | _ => trivial

theorem polls_appTask : appTask.Polls Waits := by
  refine polls_initIvahdFrwk.bind fun _ => polls_hdvicpReset.bind fun _ => ?_
  intro _ _ (status : Word)
  show (if failed status = true then (done .ipcFailed : Boot Outcome) else _).Polls Waits
  split
  · trivial
  · exact fun _ => ⟨rfl, fun _ _ => ⟨rfl, fun _ => polls_serverInit.bind fun _ => trivial⟩⟩

/-- The start comes to its end, or it hangs in one of its polls for ever, which are those
of the modules and of the attachments: nothing else makes it wait. -/
theorem startup_settles : Settles env Waits ⟨[], appTask, w⟩ := settles polls_appTask

end Runs

end Libdce.Firmware.Startup
