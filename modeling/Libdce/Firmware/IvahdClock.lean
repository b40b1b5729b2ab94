import Libdce.Foundation.GuardedRuns
import Libdce.Remote.Handlers

/-!
# The clock of IVA-HD

The platform counts the process calls in progress and divides the IVA-HD clock
down whenever there is none. Worker tasks take the actions of their handlers one
at a time and in any order; `ivahd_acquire` and `ivahd_release` run with
interrupts disabled, so each of them is one step.

## Implementation notes

Only a field of the clock register belongs to the setting; writing it must leave
the other bits alone. A task is between its acquire and its release while it has
the release still to do and the acquire behind it.
-/

namespace Libdce.Firmware

open Foundation.GuardedRuns Remote

/-- `CM_DIV_M5_DPLL_IVA = (CM_DIV_M5_DPLL_IVA & ~0x0000011f) | val`. -/
def storeField (reg val : Word) : Word := (reg &&& ~~~0x11f) ||| val

/-- `set_ivahd_opp`; any other operating point is an error that changes nothing. -/
def setIvahdOpp (opp : Nat) (reg : Word) : Word :=
  match opp with
  | 0 => storeField reg 0x10e
  | 50 => storeField reg 0x00e
  | 100 => storeField reg 0x007
  | _ => reg

/-- `ivahd_use_cnt` and the clock register. -/
structure Ivahd where
  useCnt : Word
  reg : Word
  deriving DecidableEq, Repr

/-- `ivahd_acquire`. -/
def ivahdAcquire (v : Ivahd) : Ivahd :=
  ⟨v.useCnt + 1, if v.useCnt + 1 = 1 then setIvahdOpp 100 v.reg else v.reg⟩

/-- `ivahd_release`. -/
def ivahdRelease (v : Ivahd) : Ivahd :=
  ⟨v.useCnt - 1, if v.useCnt = 1 then setIvahdOpp 0 v.reg else v.reg⟩

section Field

variable {reg val : Word}

theorem storeField_and_field (h : val &&& 0x11f = val) : storeField reg val &&& 0x11f = val := by
  rw [storeField, BitVec.and_or_distrib_right, BitVec.and_assoc, h]
  simp

theorem storeField_and_rest (h : val &&& ~~~0x11f = 0) :
    storeField reg val &&& ~~~0x11f = reg &&& ~~~0x11f := by
  rw [storeField, BitVec.and_or_distrib_right, BitVec.and_assoc, h]
  simp

end Field

/-- Setting an operating point leaves the rest of the register alone. -/
theorem ivahdAcquire_rest (v : Ivahd) : (ivahdAcquire v).reg &&& ~~~0x11f = v.reg &&& ~~~0x11f := by
  unfold ivahdAcquire
  split
  · exact storeField_and_rest (by decide)
  · rfl

theorem ivahdRelease_rest (v : Ivahd) : (ivahdRelease v).reg &&& ~~~0x11f = v.reg &&& ~~~0x11f := by
  unfold ivahdRelease
  split
  · exact storeField_and_rest (by decide)
  · rfl

/-- A task is between its acquire and its release. -/
def Holding (todo : List Remote.Action) : Prop := .ivahdRelease ∈ todo ∧ .ivahdAcquire ∉ todo

instance : DecidablePred Holding := fun todo =>
  inferInstanceAs (Decidable (.ivahdRelease ∈ todo ∧ .ivahdAcquire ∉ todo))

/-- What is left to do of the handler of some request. -/
def Started (todo : List Remote.Action) : Prop :=
  ∃ pid reply, ∃ req : CeRequest, todo <:+ req.actions pid reply

section Tasks

variable {todo rest : List Remote.Action} {act : Remote.Action}

theorem Started.tail (h : Started (act :: rest)) : Started rest := by
  obtain ⟨pid, reply, req, hsuffix⟩ := h
  exact ⟨pid, reply, req, (List.suffix_cons act rest).trans hsuffix⟩

/-- A handler that has not begun is not between its acquire and its release. -/
theorem not_holding_actions (pid : Pid) (reply : CeReply) (req : CeRequest) :
    ¬Holding (req.actions pid reply) := by
  cases req <;> simp [Holding, CeRequest.actions, CeRequest.registration]

/-- Only the handler of a process call acquires and releases. -/
theorem process_of_mem {pid : Pid} {reply : CeReply} {req : CeRequest}
    (hmem : act ∈ req.actions pid reply) (hact : act = .ivahdAcquire ∨ act = .ivahdRelease) :
    ∃ codec inBufs outBufs inArgs outArgs,
      req = .viddec3Process codec inBufs outBufs inArgs outArgs := by
  cases req with
  | viddec3Process codec inBufs outBufs inArgs outArgs => exact ⟨_, _, _, _, _, rfl⟩
  | _ => rcases hact with rfl | rfl <;> simp [CeRequest.actions, CeRequest.registration] at hmem

/-- A handler makes no call but its own. -/
theorem request_of_invoke {pid : Pid} {reply : CeReply} {req req' : CeRequest} {env : Word}
    (hmem : .invoke env req' ∈ req.actions pid reply) : req' = req := by
  cases req <;> simp [CeRequest.actions, CeRequest.registration] at hmem <;> exact hmem.2

/-- What a handler does after it has acquired. -/
theorem Started.of_acquire (h : Started (.ivahdAcquire :: rest)) :
    ∃ env codec inBufs outBufs inArgs outArgs cleans,
      rest = .invoke env (.viddec3Process codec inBufs outBufs inArgs outArgs) ::
        .ivahdRelease :: cleans ∧ .ivahdAcquire ∉ cleans := by
  obtain ⟨pid, reply, req, hsuffix⟩ := h
  obtain ⟨codec, inBufs, outBufs, inArgs, outArgs, rfl⟩ :=
    process_of_mem (hsuffix.mem List.mem_cons_self) (Or.inl rfl)
  simp only [CeRequest.actions, List.suffix_cons_iff, List.cons.injEq, reduceCtorEq,
    false_and, false_or, true_and, List.suffix_nil, or_false] at hsuffix
  exact ⟨pid, codec, inBufs, outBufs, inArgs, outArgs, _, hsuffix, by simp⟩

/-- After its release a handler neither acquires nor releases again. -/
theorem Started.of_release (h : Started (.ivahdRelease :: rest)) :
    .ivahdAcquire ∉ rest ∧ .ivahdRelease ∉ rest := by
  obtain ⟨pid, reply, req, hsuffix⟩ := h
  obtain ⟨codec, inBufs, outBufs, inArgs, outArgs, rfl⟩ :=
    process_of_mem (hsuffix.mem List.mem_cons_self) (Or.inr rfl)
  simp only [CeRequest.actions, List.suffix_cons_iff, List.cons.injEq, reduceCtorEq,
    false_and, false_or, true_and, List.suffix_nil, or_false] at hsuffix
  rw [hsuffix]
  simp

/-- A process call is made between the acquire and the release. -/
theorem Started.holding_of_process {env codec inBufs outBufs inArgs outArgs : Word}
    (h : Started (.invoke env (.viddec3Process codec inBufs outBufs inArgs outArgs) :: rest)) :
    Holding (.invoke env (.viddec3Process codec inBufs outBufs inArgs outArgs) :: rest) := by
  obtain ⟨pid, reply, req, hsuffix⟩ := h
  obtain rfl := request_of_invoke (hsuffix.mem List.mem_cons_self)
  simp only [CeRequest.actions, List.suffix_cons_iff, List.cons.injEq, reduceCtorEq,
    false_and, false_or, List.suffix_nil, or_false] at hsuffix
  rw [hsuffix.2]
  simp [Holding]

end Tasks

/-- The clock and what each worker task has still to do. -/
structure State (n : ℕ) where
  clock : Ivahd
  tasks : Fin n → List Remote.Action

/-- `platform_init`, before there are any requests. -/
def platformInit (n : ℕ) (reg : Word) : State n := ⟨⟨0, setIvahdOpp 0 reg⟩, fun _ => []⟩

/-- A step of a worker task. -/
inductive Step (n : ℕ) where
  | serve (i : Fin n) (pid : Pid) (req : CeRequest) (reply : CeReply)
  | advance (i : Fin n)

namespace State

variable {n : ℕ} (s : State n)

/-- The effect of an action on the clock. -/
def clockAfter : List Remote.Action → Ivahd
  | .ivahdAcquire :: _ => ivahdAcquire s.clock
  | .ivahdRelease :: _ => ivahdRelease s.clock
  | _ => s.clock

/-- A task takes a request, or does the next thing of its handler. -/
def step : Step n → State n
  | .serve i pid req reply => { s with tasks := Function.update s.tasks i (req.actions pid reply) }
  | .advance i =>
      { clock := s.clockAfter (s.tasks i)
        tasks := Function.update s.tasks i (s.tasks i).tail }

/-- A task takes a request when it is done with the one before. -/
@[reducible] def Legal : Step n → Prop
  | .serve i _ _ _ => s.tasks i = []
  | .advance i => s.tasks i ≠ []

instance : DecidablePred s.Legal
  | .serve _ _ _ _ | .advance _ => inferInstance

/-- The tasks between their acquire and their release. -/
def users : Finset (Fin n) := Finset.univ.filter fun i => Holding (s.tasks i)

/-- The invariant: the count is the number of users, the field shows whether there
is one, and the rest of the register is as it was. -/
structure Follows (reg : Word) (s : State n) : Prop where
  started : ∀ i, s.tasks i = [] ∨ Started (s.tasks i)
  useCnt : s.clock.useCnt = BitVec.ofNat 32 s.users.card
  field : s.clock.reg &&& 0x11f = if 0 < s.users.card then 0x007 else 0x10e
  rest : s.clock.reg &&& ~~~0x11f = reg &&& ~~~0x11f

variable {s} {reg : Word} {i : Fin n}

theorem mem_users : i ∈ s.users ↔ Holding (s.tasks i) := by
  simp [users]

theorem card_users_le (s : State n) : s.users.card ≤ n :=
  (Finset.card_le_univ _).trans_eq (Fintype.card_fin n)

/-- A task that neither acquires nor releases is a user if it was one. -/
theorem users_same {clock : Ivahd} {todo : List Remote.Action}
    (h : Holding todo ↔ Holding (s.tasks i)) :
    (State.mk clock (Function.update s.tasks i todo)).users = s.users := by
  ext j
  by_cases hj : j = i
  · subst j
    simp [mem_users, h]
  · simp [mem_users, hj]

theorem users_gained {clock : Ivahd} {todo : List Remote.Action} (h : Holding todo) :
    (State.mk clock (Function.update s.tasks i todo)).users = insert i s.users := by
  ext j
  by_cases hj : j = i
  · subst j
    simp [mem_users, h]
  · simp [mem_users, hj]

theorem users_lost {clock : Ivahd} {todo : List Remote.Action} (h : ¬Holding todo) :
    (State.mk clock (Function.update s.tasks i todo)).users = s.users.erase i := by
  ext j
  by_cases hj : j = i
  · subst j
    simp [mem_users, h]
  · simp [mem_users, hj]

namespace Follows

theorem start (reg : Word) : (platformInit n reg).Follows reg where
  started _ := Or.inl rfl
  useCnt := by simp [users, platformInit, Holding]
  field := by
    simp only [users, platformInit, Holding, List.not_mem_nil, false_and, Finset.filter_false,
      Finset.card_empty, lt_irrefl, if_false]
    exact storeField_and_field (by decide)
  rest := storeField_and_rest (by decide)

theorem started_update (hs : s.Follows reg) {todo : List Remote.Action}
    (h : todo = [] ∨ Started todo) :
    ∀ j, Function.update s.tasks i todo j = [] ∨ Started (Function.update s.tasks i todo j) := by
  intro j
  by_cases hj : j = i
  · subst j
    rwa [Function.update_self]
  · rw [Function.update_of_ne hj]
    exact hs.started j

/-- The count does not wrap. -/
theorem toNat_useCnt (hn : n < 2 ^ 31) (hs : s.Follows reg) :
    s.clock.useCnt.toNat = s.users.card := by
  have hle := card_users_le s
  rw [hs.useCnt, BitVec.toNat_ofNat]
  exact Nat.mod_eq_of_lt (by omega)

/-- Acquiring switches the clock up exactly when there was no user. -/
theorem acquire (hn : n < 2 ^ 31) (hs : s.Follows reg) {rest : List Remote.Action}
    (hi : s.tasks i = .ivahdAcquire :: rest) (hstarted : Started (.ivahdAcquire :: rest)) :
    (State.mk (ivahdAcquire s.clock) (Function.update s.tasks i rest)).Follows reg := by
  obtain ⟨env, codec, inBufs, outBufs, inArgs, outArgs, cleans, rfl, hcleans⟩ :=
    hstarted.of_acquire
  have hnow : Holding (.invoke env (.viddec3Process codec inBufs outBufs inArgs outArgs) ::
      .ivahdRelease :: cleans) := by
    simp [Holding, hcleans]
  have hfresh : i ∉ s.users := by
    rw [mem_users, hi]
    simp [Holding]
  have hcard : (insert i s.users).card = s.users.card + 1 := Finset.card_insert_of_notMem hfresh
  have hle := card_users_le s
  have hcount := hs.toNat_useCnt hn
  have hfirst : s.clock.useCnt + 1 = 1 ↔ s.users.card = 0 := by
    rw [← hcount, ← BitVec.toNat_inj, Word.toNat_succ (by omega)]
    exact Nat.succ_inj
  refine ⟨hs.started_update (Or.inr hstarted.tail), ?_, ?_, ?_⟩
  · rw [users_gained hnow, hcard, BitVec.ofNat_add, ← hs.useCnt]
    rfl
  · rw [users_gained hnow, hcard, if_pos (Nat.succ_pos _)]
    unfold ivahdAcquire
    split
    · exact storeField_and_field (by decide)
    · next hnot =>
        rw [hs.field, if_pos (Nat.pos_of_ne_zero (mt hfirst.mpr hnot))]
  · exact (ivahdAcquire_rest s.clock).trans hs.rest

/-- Releasing switches the clock down exactly when the last user goes. -/
theorem release (hn : n < 2 ^ 31) (hs : s.Follows reg) {rest : List Remote.Action}
    (hi : s.tasks i = .ivahdRelease :: rest) (hstarted : Started (.ivahdRelease :: rest)) :
    (State.mk (ivahdRelease s.clock) (Function.update s.tasks i rest)).Follows reg := by
  obtain ⟨hacquire, hrelease⟩ := hstarted.of_release
  have hgone : ¬Holding rest := fun h => hrelease h.1
  have hmem : i ∈ s.users := by
    rw [mem_users, hi]
    simp [Holding, hacquire]
  have hcard : (s.users.erase i).card = s.users.card - 1 := Finset.card_erase_of_mem hmem
  have hpos : 0 < s.users.card := Finset.card_pos.mpr ⟨i, hmem⟩
  have hle := card_users_le s
  have hcount := hs.toNat_useCnt hn
  have hlast : s.clock.useCnt = 1 ↔ s.users.card = 1 := by
    rw [← hcount]
    exact BitVec.toNat_inj.symm
  refine ⟨hs.started_update (Or.inr hstarted.tail), ?_, ?_, ?_⟩
  · rw [users_lost hgone, hcard, ivahdRelease]
    apply BitVec.eq_of_toNat_eq
    rw [Word.toNat_pred (by omega), hcount, BitVec.toNat_ofNat]
    exact (Nat.mod_eq_of_lt (by omega)).symm
  · rw [users_lost hgone, hcard]
    unfold ivahdRelease
    split
    · next hone =>
        rw [if_neg (by have := hlast.mp hone; omega)]
        exact storeField_and_field (by decide)
    · next hmore =>
        rw [if_pos (by have := mt hlast.mpr hmore; omega), hs.field, if_pos hpos]
  · exact (ivahdRelease_rest s.clock).trans hs.rest

/-- A task that changes nothing about its use of the clock. -/
theorem other (hs : s.Follows reg) {todo : List Remote.Action} (htodo : todo = [] ∨ Started todo)
    (h : Holding todo ↔ Holding (s.tasks i)) :
    (State.mk s.clock (Function.update s.tasks i todo)).Follows reg := by
  refine ⟨hs.started_update htodo, ?_, ?_, hs.rest⟩
  · rw [users_same h]
    exact hs.useCnt
  · rw [users_same h]
    exact hs.field

theorem step (hn : n < 2 ^ 31) (hs : s.Follows reg) {a : Step n} (hlegal : s.Legal a) :
    (s.step a).Follows reg := by
  cases a with
  | serve i pid req reply =>
      apply hs.other (Or.inr ⟨pid, reply, req, List.suffix_rfl⟩)
      rw [show s.tasks i = [] from hlegal]
      exact iff_of_false (not_holding_actions pid reply req) (by simp [Holding])
  | advance i =>
      have hstarted := (hs.started i).resolve_left hlegal
      cases htodo : s.tasks i with
      | nil => exact absurd htodo hlegal
      | cons act rest =>
          rw [htodo] at hstarted
          simp only [State.step, htodo, List.tail_cons]
          by_cases hacquire : act = .ivahdAcquire
          · subst hacquire
            exact hs.acquire hn htodo hstarted
          · by_cases hrelease : act = .ivahdRelease
            · subst hrelease
              exact hs.release hn htodo hstarted
            · have hclock : s.clockAfter (act :: rest) = s.clock := by
                cases act <;> first | rfl | exact absurd rfl hacquire | exact absurd rfl hrelease
              rw [hclock]
              apply hs.other (Or.inr hstarted.tail)
              rw [htodo]
              simp only [Holding, List.mem_cons, Ne.symm hacquire, Ne.symm hrelease, false_or]

end Follows

/-- The clock follows use: in every reachable state the count is the number of
tasks between their acquire and their release, the field of the register is that
of the full clock exactly while there is one, the rest of the register is as it
was, and no process call runs on the idle clock. -/
theorem clock_follows_use {n : ℕ} (hn : n < 2 ^ 31) (reg : Word) {steps : List (Step n)}
    (run : Run step Legal (platformInit n reg) steps) :
    let s := final step (platformInit n reg) steps
    s.clock.useCnt.toInt = s.users.card ∧
      s.clock.reg &&& 0x11f = (if 0 < s.users.card then 0x007 else 0x10e) ∧
      s.clock.reg &&& ~~~0x11f = reg &&& ~~~0x11f ∧
      ∀ i env codec inBufs outBufs inArgs outArgs rest,
        s.tasks i = .invoke env (.viddec3Process codec inBufs outBufs inArgs outArgs) :: rest →
          s.clock.reg &&& 0x11f = 0x007 := by
  intro s
  have hs : s.Follows reg := run.invariant (Follows.start reg) fun _ _ hs hlegal => hs.step hn hlegal
  refine ⟨?_, hs.field, hs.rest, ?_⟩
  · have hle := card_users_le s
    have hcount := hs.toNat_useCnt hn
    rw [BitVec.toInt_eq_toNat_of_lt (by omega), hcount]
  · intro i env codec inBufs outBufs inArgs outArgs rest hi
    have hstarted := (hs.started i).resolve_left (by rw [hi]; exact List.cons_ne_nil _ _)
    rw [hi] at hstarted
    have huser : i ∈ s.users := by
      rw [mem_users, hi]
      exact hstarted.holding_of_process
    rw [hs.field, if_pos (Finset.card_pos.mpr ⟨i, huser⟩)]

/-- Two tasks decode at the same time, and the first one releases. -/
def overlapping : List (Step 2) :=
  [.serve 0 7 (.viddec3Process 200 0 0 0 0) ⟨0, 0⟩, .advance 0, .advance 0,
    .serve 1 9 (.viddec3Process 201 0 0 0 0) ⟨0, 0⟩, .advance 1, .advance 1, .advance 0, .advance 0]

theorem clock_follows_use_overlapping :
    (final step (platformInit 2 0xffffffff) overlapping).clock.reg &&& 0x11f = 0x007 := by
  have run : Run step Legal (platformInit 2 0xffffffff) overlapping := by
    decide +kernel
  exact (clock_follows_use (by decide) 0xffffffff run).2.2.2 1 9 201 0 0 0 0
    [.ivahdRelease, .clean 0, .clean 0, .clean 0, .clean 0] (by decide +kernel)

end State

end Libdce.Firmware
