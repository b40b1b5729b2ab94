import Libdce.Concurrency.Accesses

/-!
# What a task leaves behind

At every place of a function that looks after the table it is settled what the
function will leave in the slot of its client, as long as nobody else writes to
that slot. Its own accesses bring this about one by one, and the accesses that
are made for other clients do not touch it.
-/

namespace Libdce.Concurrency.Unlocked

open Tracking Foundation.SlotArray

/-- A slot with another handle array. -/
def withCells (c : Client) (f : Fin 10 → Handle) : Kind → Client
  | .engine => { c with engines := f }
  | .codec => { c with codecs := f }

section Cells

variable (c : Client) (f : Fin 10 → Handle) (k : Kind)

@[simp] theorem withCells_pid : (withCells c f k).pid = c.pid := by cases k <;> rfl

@[simp] theorem withCells_refs : (withCells c f k).refs = c.refs := by cases k <;> rfl

theorem withCells_cells (l : Kind) :
    (withCells c f k).cells l = if l = k then f else c.cells l := by
  cases k <;> cases l <;> rfl

theorem setCell_eq (j : Fin 10) (h : Handle) :
    setCell c j h k = withCells c (Function.update (c.cells k) j h) k := by
  cases k <;> rfl

theorem withCells_self : withCells c (c.cells k) k = c := by cases k <;> rfl

end Cells

/-- The slot that the function works on, once it is known. -/
def Place.slot : Place → Option (Fin 10)
  | .lookUp _ => none
  | .lookUpFree _ => none
  | .loadRefs c => some c
  | .storeRefs c _ => some c
  | .scan c _ => some c
  | .write c _ => some c
  | .testRefs c => some c
  | .vacate c => some c
  | .claimPid c => some c
  | .claimRefs c => some c
  | .claimCell c => some c

namespace Job

variable (job : Job)

/-- What is left in the slot from the loop over the array on. -/
def scanning (c : Client) : Client :=
  let c := withCells c (replaceFirst (c.cells job.kind) job.sought job.written) job.kind
  match job.change with
  | .register => c
  | .unregister => { c with refs := c.refs - 1 }.settle job.kind

/-- What is left in the slot from the count on. -/
def counting (c : Client) : Client :=
  match job.change with
  | .register => c.store job.kind job.h
  | .unregister => { c with refs := c.refs - 1 }.settle job.kind

/-- What is left in the slot. -/
def outcome (c : Client) : Client :=
  match job.change with
  | .register => c.store job.kind job.h
  | .unregister => (c.drop job.kind job.h).settle job.kind

/-- Carried on alone, the function leaves `o` in the slot of its client, which has none
when `o` is `none`. -/
def Expects (t : Clients) (o : Option Client) : Place → Prop
  | .lookUp i =>
      (∃ c, getClient t job.pid = some c ∧ i ≤ c ∧ o = some (job.outcome (t c))) ∨
      (getClient t job.pid = none ∧ job.Opens ∧ (∃ c, (t c).pid = 0) ∧
        o = some (.first job.pid job.h)) ∨
      (getClient t job.pid = none ∧ ¬job.Opens ∧ o = none)
  | .loadRefs c => (t c).pid = job.pid ∧ o = some (job.counting (t c))
  | .storeRefs c refs =>
      (t c).pid = job.pid ∧ refs = (t c).refs ∧ o = some (job.counting (t c))
  | .scan c j =>
      (t c).pid = job.pid ∧ (∀ i : Fin 10, i < j → (t c).cells job.kind i ≠ job.sought) ∧
        o = some (job.scanning (t c))
  | .write c j =>
      (t c).pid = job.pid ∧ firstAt ((t c).cells job.kind) job.sought = some j ∧
        o = some (job.scanning (t c))
  | .testRefs c => (t c).pid = job.pid ∧ o = some (t c).releaseIfUnused
  | .vacate c => (t c).pid = job.pid ∧ (t c).refs = 0 ∧ o = some (t c).releaseIfUnused
  | .lookUpFree i =>
      job.Opens ∧ getClient t job.pid = none ∧ (∃ c : Fin 10, i ≤ c ∧ (t c).pid = 0) ∧
        o = some (.first job.pid job.h)
  | .claimPid c =>
      job.Opens ∧ getClient t job.pid = none ∧ (t c).pid = 0 ∧ (t c).Blank ∧
        o = some (.first job.pid job.h)
  | .claimRefs c =>
      job.Opens ∧ (t c).pid = job.pid ∧ (t c).Blank ∧ o = some (.first job.pid job.h)
  | .claimCell c =>
      job.Opens ∧ (t c).pid = job.pid ∧ (t c).refs = 1 ∧ (t c).Blank ∧
        o = some (.first job.pid job.h)

end Job

section Own

variable {t : Clients} {job : Job} {o : Option Client} {c : Fin 10}

/-- The slot carries the pid of a client, or it is unused and the client has none. -/
def Follows (t : Clients) (p : Pid) (c : Fin 10) : Prop :=
  (t c).pid = p ∨ (t c).pid = 0 ∧ getClient t p = none

/-- The table is as it was, but for a slot of the client or an unused one. -/
def Writes (p : Pid) (t : Clients) (c : Fin 10) (t' : Clients) : Prop :=
  ∃ x, t' = Function.update t c x ∧ Follows t p c ∧ (x.pid = p ∨ x.pid = 0)

theorem Writes.refl {p : Pid} (h : Follows t p c) : Writes p t c t :=
  ⟨t c, (Function.update_eq_self c t).symm, h, h.imp_right And.left⟩

theorem Writes.update {p : Pid} {x : Client} (h : (t c).pid = p) (hx : x.pid = p ∨ x.pid = 0) :
    Writes p t c (Function.update t c x) :=
  ⟨x, rfl, Or.inl h, hx⟩

/-- What an access is to bring about: the same is expected at the next place, and at the
end it has come true. -/
def Job.Advances (job : Job) (t : Clients) (o : Option Client) (place : Place) :
    Clients × Option Place → Prop
  | (t', some place') => job.Expects t' o place' ∧
      ((t' = t ∧ (place.slot = none ∨ place'.slot = place.slot)) ∨
        ∃ c, place.slot = some c ∧ place'.slot = some c ∧ Writes job.pid t c t')
  | (t', none) =>
      (place.slot = none ∧ t' = t ∧ getClient t job.pid = none ∧ o = none) ∨
        ∃ c, place.slot = some c ∧ o = some (t' c) ∧ Writes job.pid t c t'

namespace Job

theorem absent_of_opens (h : job.Opens) : job.absent = some (.lookUpFree 0) := by
  rw [absent, h.1, h.2]

theorem absent_of_not_opens (h : ¬job.Opens) : job.absent = none := by
  unfold absent
  split
  · next hchange hkind => exact absurd ⟨hchange, hkind⟩ h
  · rfl

/-- The slot is found, and the function goes on in it. -/
theorem expects_found (hpid : (t c).pid = job.pid) (ho : o = some (job.outcome (t c))) :
    job.Expects t o (job.found c) ∧ (job.found c).slot = some c := by
  unfold found
  cases hchange : job.change with
  | register =>
      refine ⟨⟨hpid, ?_⟩, rfl⟩
      rw [ho, outcome, counting, hchange]
  | unregister =>
      refine ⟨⟨hpid, fun i hi => absurd hi (Nat.not_lt_zero _), ?_⟩, rfl⟩
      rw [ho, outcome, scanning, hchange, sought, written, hchange]
      cases job.kind <;> rfl

theorem advances_lookUp (hu : UniquePids t) (hp : job.pid ≠ 0) {i : ℕ}
    (h : job.Expects t o (.lookUp i)) :
    job.Advances t o (.lookUp i) (job.advance t (.lookUp i)) := by
  by_cases hi : i < 10
  · by_cases hpid : (t ⟨i, hi⟩).pid = job.pid
    · have hfound : getClient t job.pid = some ⟨i, hi⟩ := by
        rw [← hpid]
        exact hu.getClient_pid (hpid ▸ hp)
      rcases h with ⟨c, hc, -, ho⟩ | ⟨hnone, -⟩ | ⟨hnone, -⟩
      · obtain rfl : ⟨i, hi⟩ = c := Option.some.inj (hfound.symm.trans hc)
        simp only [advance, dif_pos hi, if_pos hpid]
        exact ⟨(expects_found hpid ho).1, Or.inl ⟨rfl, Or.inl rfl⟩⟩
      · exact absurd (hfound.symm.trans hnone) (Option.some_ne_none _)
      · exact absurd (hfound.symm.trans hnone) (Option.some_ne_none _)
    · simp only [advance, dif_pos hi, if_neg hpid]
      refine ⟨?_, Or.inl ⟨rfl, Or.inl rfl⟩⟩
      rcases h with ⟨c, hc, hic, ho⟩ | hnone
      · have hne : i ≠ c := by
          rintro rfl
          exact hpid (pid_of_getClient hc)
        exact Or.inl ⟨c, hc, by omega, ho⟩
      · exact Or.inr hnone
  · rcases h with ⟨c, hc, hic, -⟩ | ⟨hnone, hopens, ⟨c, hfree⟩, ho⟩ | ⟨hnone, hopens, ho⟩
    · exact absurd (hic.trans_lt c.isLt) hi
    · simp only [advance, dif_neg hi, absent_of_opens hopens]
      exact ⟨⟨hopens, hnone, ⟨c, Nat.zero_le _, hfree⟩, ho⟩, Or.inl ⟨rfl, Or.inl rfl⟩⟩
    · simp only [advance, dif_neg hi, absent_of_not_opens hopens]
      exact Or.inl ⟨rfl, rfl, hnone, ho⟩

theorem advances_loadRefs (h : job.Expects t o (.loadRefs c)) :
    job.Advances t o (.loadRefs c) (job.advance t (.loadRefs c)) :=
  ⟨⟨h.1, rfl, h.2⟩, Or.inl ⟨rfl, Or.inr rfl⟩⟩

theorem advances_storeRefs {refs : Word} (h : job.Expects t o (.storeRefs c refs)) :
    job.Advances t o (.storeRefs c refs) (job.advance t (.storeRefs c refs)) := by
  obtain ⟨hpid, rfl, ho⟩ := h
  have hwrites : Writes job.pid t c (Function.update t c { t c with refs := job.count (t c).refs }) :=
    Writes.update hpid (Or.inl hpid)
  simp only [advance, counted]
  cases hchange : job.change with
  | register =>
      refine ⟨⟨?_, fun i hi => absurd hi (Nat.not_lt_zero _), ?_⟩, Or.inr ⟨c, rfl, rfl, hwrites⟩⟩
      · rwa [Function.update_self]
      · rw [ho, counting, scanning, count, sought, written, hchange, Function.update_self]
        cases job.kind <;> rfl
  | unregister =>
      cases hkind : job.kind with
      | engine =>
          refine ⟨⟨?_, ?_⟩, Or.inr ⟨c, rfl, rfl, hwrites⟩⟩
          · rwa [Function.update_self]
          · rw [ho, counting, count, hchange, hkind, Function.update_self]
            rfl
      | codec =>
          refine Or.inr ⟨c, rfl, ?_, hwrites⟩
          rw [ho, counting, count, hchange, hkind, Function.update_self]
          rfl

/-- After the loop over the array. -/
theorem advances_scanned {place : Place} {x : Client} (hplace : place.slot = some c)
    (hpid : (t c).pid = job.pid) (hx : x.pid = job.pid)
    (ho : o = some (match job.change with
      | .register => x
      | .unregister => { x with refs := x.refs - 1 }.settle job.kind)) :
    job.Advances t o place (Function.update t c x, job.scanned c) := by
  have hwrites : Writes job.pid t c (Function.update t c x) := Writes.update hpid (Or.inl hx)
  unfold scanned
  cases hchange : job.change with
  | register =>
      rw [hchange] at ho
      refine Or.inr ⟨c, hplace, ?_, hwrites⟩
      rw [ho, Function.update_self]
  | unregister =>
      rw [hchange] at ho
      refine ⟨⟨?_, ?_⟩, Or.inr ⟨c, hplace, rfl, hwrites⟩⟩
      · rwa [Function.update_self]
      · rw [ho, counting, hchange, Function.update_self]

theorem advances_scan {j : ℕ} (h : job.Expects t o (.scan c j)) :
    job.Advances t o (.scan c j) (job.advance t (.scan c j)) := by
  obtain ⟨hpid, hpassed, ho⟩ := h
  by_cases hj : j < 10
  · by_cases hcell : (t c).cells job.kind ⟨j, hj⟩ = job.sought
    · simp only [advance, dif_pos hj, if_pos hcell]
      refine ⟨⟨hpid, firstAt_eq_some_iff.mpr ⟨hcell, fun i hi => hpassed i hi⟩, ho⟩, ?_⟩
      exact Or.inl ⟨rfl, Or.inr rfl⟩
    · simp only [advance, dif_pos hj, if_neg hcell]
      refine ⟨⟨hpid, ?_, ho⟩, Or.inl ⟨rfl, Or.inr rfl⟩⟩
      intro i hi
      rcases Nat.lt_succ_iff_lt_or_eq.mp hi with hlt | heq
      · exact hpassed i hlt
      · exact fun h => hcell ((congrArg _ (Fin.ext heq.symm)).trans h)
  · -- the handle is not in the array
    have habsent : ∀ i, (t c).cells job.kind i ≠ job.sought := fun i => hpassed i (by omega)
    simp only [advance, dif_neg hj]
    have hadvances : job.Advances t o (.scan c j) _ := advances_scanned rfl hpid hpid ?_
    · rwa [Function.update_eq_self] at hadvances
    · rw [ho, scanning, replaceFirst_of_absent habsent, withCells_self]

theorem advances_write {j : Fin 10} (h : job.Expects t o (.write c j)) :
    job.Advances t o (.write c j) (job.advance t (.write c j)) := by
  obtain ⟨hpid, hfirst, ho⟩ := h
  rw [advance, setCell_eq]
  apply advances_scanned rfl hpid
  · rwa [withCells_pid]
  · rw [ho, scanning, replaceFirst_of_firstAt hfirst]

theorem advances_testRefs (h : job.Expects t o (.testRefs c)) :
    job.Advances t o (.testRefs c) (job.advance t (.testRefs c)) := by
  obtain ⟨hpid, ho⟩ := h
  by_cases hrefs : (t c).refs = 0
  · simp only [advance, if_pos hrefs]
    exact ⟨⟨hpid, hrefs, ho⟩, Or.inl ⟨rfl, Or.inr rfl⟩⟩
  · simp only [advance, if_neg hrefs]
    refine Or.inr ⟨c, rfl, ?_, Writes.refl (Or.inl hpid)⟩
    rw [ho, Client.releaseIfUnused, if_neg hrefs]

theorem advances_vacate (h : job.Expects t o (.vacate c)) :
    job.Advances t o (.vacate c) (job.advance t (.vacate c)) := by
  obtain ⟨hpid, hrefs, ho⟩ := h
  refine Or.inr ⟨c, rfl, ?_, Writes.update hpid (Or.inr rfl)⟩
  rw [ho, Client.releaseIfUnused, if_pos hrefs, Function.update_self]

theorem advances_lookUpFree {i : ℕ} (hblank : UnusedBlank t)
    (h : job.Expects t o (.lookUpFree i)) :
    job.Advances t o (.lookUpFree i) (job.advance t (.lookUpFree i)) := by
  obtain ⟨hopens, hnone, ⟨c, hic, hfree⟩, ho⟩ := h
  have hi : i < 10 := hic.trans_lt c.isLt
  by_cases hpid : (t ⟨i, hi⟩).pid = 0
  · simp only [advance, dif_pos hi, if_pos hpid]
    exact ⟨⟨hopens, hnone, hpid, hblank _ hpid, ho⟩, Or.inl ⟨rfl, Or.inl rfl⟩⟩
  · simp only [advance, dif_pos hi, if_neg hpid]
    have hne : i ≠ c := by
      rintro rfl
      exact hpid hfree
    exact ⟨⟨hopens, hnone, ⟨c, by omega, hfree⟩, ho⟩, Or.inl ⟨rfl, Or.inl rfl⟩⟩

theorem advances_claimPid (h : job.Expects t o (.claimPid c)) :
    job.Advances t o (.claimPid c) (job.advance t (.claimPid c)) := by
  obtain ⟨hopens, hnone, hfree, hblank, ho⟩ := h
  refine ⟨⟨hopens, ?_, ?_, ho⟩, Or.inr ⟨c, rfl, rfl, _, rfl, Or.inr ⟨hfree, hnone⟩, Or.inl rfl⟩⟩
  · rw [Function.update_self]
  · rw [Function.update_self]
    exact hblank

theorem advances_claimRefs (h : job.Expects t o (.claimRefs c)) :
    job.Advances t o (.claimRefs c) (job.advance t (.claimRefs c)) := by
  obtain ⟨hopens, hpid, hblank, ho⟩ := h
  refine ⟨⟨hopens, ?_, ?_, ?_, ho⟩, Or.inr ⟨c, rfl, rfl, Writes.update hpid (Or.inl hpid)⟩⟩
  · rwa [Function.update_self]
  · rw [Function.update_self]
  · rw [Function.update_self]
    exact hblank

theorem advances_claimCell (h : job.Expects t o (.claimCell c)) :
    job.Advances t o (.claimCell c) (job.advance t (.claimCell c)) := by
  obtain ⟨-, hpid, hrefs, hblank, ho⟩ := h
  refine Or.inr ⟨c, rfl, ?_, Writes.update hpid (Or.inl hpid)⟩
  rw [ho, ← hblank.occupy, Function.update_self, Client.occupy]
  dsimp only
  rw [hpid, hrefs]

/-- Every access brings about what is expected of its function. -/
theorem Expects.advance {place : Place} (hu : UniquePids t) (hp : job.pid ≠ 0)
    (hblank : place.Claims t job → UnusedBlank t) (h : job.Expects t o place) :
    job.Advances t o place (job.advance t place) := by
  cases place with
  | lookUp i => exact advances_lookUp hu hp h
  | loadRefs c => exact advances_loadRefs h
  | storeRefs c refs => exact advances_storeRefs h
  | scan c j => exact advances_scan h
  | write c j => exact advances_write h
  | testRefs c => exact advances_testRefs h
  | vacate c => exact advances_vacate h
  | lookUpFree i => exact advances_lookUpFree (hblank trivial) h
  | claimPid c => exact advances_claimPid h
  | claimRefs c => exact advances_claimRefs h
  | claimCell c => exact advances_claimCell h

/-- The slot of a function carries the pid of its client, or is just being taken over. -/
theorem Expects.pid_slot {place : Place} (h : job.Expects t o place) (hc : place.slot = some c) :
    (t c).pid = job.pid ∨ (t c).pid = 0 ∧ place.Claims t job := by
  cases place with
  | lookUp i => cases hc
  | lookUpFree i => cases hc
  | loadRefs c' => exact Or.inl (Option.some.inj hc ▸ h.1)
  | storeRefs c' refs => exact Or.inl (Option.some.inj hc ▸ h.1)
  | scan c' j => exact Or.inl (Option.some.inj hc ▸ h.1)
  | write c' j => exact Or.inl (Option.some.inj hc ▸ h.1)
  | testRefs c' => exact Or.inl (Option.some.inj hc ▸ h.1)
  | vacate c' => exact Or.inl (Option.some.inj hc ▸ h.1)
  | claimPid c' => exact Or.inr ⟨Option.some.inj hc ▸ h.2.2.1, trivial⟩
  | claimRefs c' => exact Or.inl (Option.some.inj hc ▸ h.2.1)
  | claimCell c' => exact Or.inl (Option.some.inj hc ▸ h.2.1)

/-- Accesses for other clients do not matter, as long as no unused slot is lost to a
function that is looking for one. -/
theorem Expects.frame {t' : Clients} {place : Place} (h : job.Expects t o place)
    (hpids : ∀ i, (t' i).pid = job.pid ↔ (t i).pid = job.pid)
    (hsame : ∀ i, (t i).pid = job.pid → t' i = t i)
    (hslot : ∀ c, place.slot = some c → t' c = t c)
    (hfree : place.Claims t job → ∀ i, (t i).pid = 0 → (t' i).pid = 0) :
    job.Expects t' o place := by
  have hget : getClient t' job.pid = getClient t job.pid := getClient_congr hpids
  cases place with
  | lookUp i =>
      rcases h with ⟨c, hc, hic, ho⟩ | ⟨hnone, hopens, ⟨c, hunused⟩, ho⟩ | ⟨hnone, hrest⟩
      · exact Or.inl ⟨c, hget.trans hc, hic, by rwa [hsame c (pid_of_getClient hc)]⟩
      · exact Or.inr (Or.inl ⟨hget.trans hnone, hopens,
          ⟨c, hfree ⟨hopens, hnone⟩ c hunused⟩, ho⟩)
      · exact Or.inr (Or.inr ⟨hget.trans hnone, hrest⟩)
  | lookUpFree i =>
      obtain ⟨hopens, hnone, ⟨c, hic, hunused⟩, ho⟩ := h
      exact ⟨hopens, hget.trans hnone, ⟨c, hic, hfree trivial c hunused⟩, ho⟩
  | claimPid c =>
      obtain ⟨hopens, hnone, hrest⟩ := h
      exact ⟨hopens, hget.trans hnone, by rwa [hslot c rfl]⟩
  | loadRefs c => rwa [Expects, hslot c rfl]
  | storeRefs c refs => rwa [Expects, hslot c rfl]
  | scan c j => rwa [Expects, hslot c rfl]
  | write c j => rwa [Expects, hslot c rfl]
  | testRefs c => rwa [Expects, hslot c rfl]
  | vacate c => rwa [Expects, hslot c rfl]
  | claimRefs c => rwa [Expects, hslot c rfl]
  | claimCell c => rwa [Expects, hslot c rfl]

end Job

end Own

/-- The rounds of the cleanup from one on: those left of its loop, and the loop over the
engines behind the one over the codecs. -/
def remaining (k : Kind) (i : ℕ) (x : Client × List CeCall) : Client × List CeCall :=
  match k with
  | .codec =>
      sweep (Client.round .engine) (((List.finRange 10).drop i).foldl (Client.round .codec) x)
  | .engine => ((List.finRange 10).drop i).foldl (Client.round .engine) x

section Rounds

variable {k : Kind} {i : ℕ} {x : Client × List CeCall}

theorem remaining_step (hi : i < 10) :
    remaining k i x = remaining k (i + 1) (Client.round k x ⟨i, hi⟩) := by
  have hlt : i < (List.finRange 10).length := by
    rwa [List.length_finRange]
  have hdrop : (List.finRange 10).drop i = ⟨i, hi⟩ :: (List.finRange 10).drop (i + 1) := by
    rw [List.drop_eq_getElem_cons hlt, List.getElem_finRange]
    rfl
  cases k with
  | engine => rw [remaining, hdrop, List.foldl_cons, remaining]
  | codec => rw [remaining, hdrop, List.foldl_cons, remaining]

theorem drop_finRange (hi : ¬i < 10) : (List.finRange 10).drop i = [] := by
  apply List.drop_of_length_le
  rw [List.length_finRange]
  omega

theorem remaining_engine_end (hi : ¬i < 10) : remaining .engine i x = x := by
  rw [remaining, drop_finRange hi, List.foldl_nil]

theorem remaining_codec_end (hi : ¬i < 10) : remaining .codec i x = remaining .engine 0 x := by
  rw [remaining, drop_finRange hi, List.foldl_nil]
  rfl

theorem cleanup_eq_remaining (c : Client) : c.cleanup = remaining .codec 0 (c, []) := rfl

/-- The calls made before do not matter to a round. -/
theorem round_calls (k : Kind) (c : Client) (calls : List CeCall) (i : Fin 10) :
    Client.round k (c, calls) i =
      ((Client.round k (c, []) i).1, calls ++ (Client.round k (c, []) i).2) := by
  unfold Client.round
  dsimp only
  split
  · rfl
  · rw [List.append_nil]

theorem foldl_round_calls (k : Kind) (is : List (Fin 10)) (c : Client) (calls : List CeCall) :
    is.foldl (Client.round k) (c, calls) =
      ((is.foldl (Client.round k) (c, [])).1, calls ++ (is.foldl (Client.round k) (c, [])).2) := by
  induction is generalizing c calls with
  | nil => simp
  | cons i is ih =>
      rw [List.foldl_cons, List.foldl_cons, round_calls, ih, ih _ (Client.round k (c, []) i).2,
        List.append_assoc]

/-- Nor to the rounds that remain. -/
theorem remaining_calls (k : Kind) (i : ℕ) (c : Client) (calls : List CeCall) :
    remaining k i (c, calls) =
      ((remaining k i (c, [])).1, calls ++ (remaining k i (c, [])).2) := by
  cases k with
  | engine => exact foldl_round_calls .engine _ c calls
  | codec =>
      simp only [remaining, sweep]
      rw [foldl_round_calls .codec _ c calls]
      generalize (List.drop i (List.finRange 10)).foldl (Client.round .codec) (c, []) = y
      rw [foldl_round_calls .engine _ y.1 (calls ++ y.2), foldl_round_calls .engine _ y.1 y.2,
        List.append_assoc]

theorem foldl_round_pid (k : Kind) (is : List (Fin 10)) (hx : x.1.pid = 0) :
    (is.foldl (Client.round k) x).1.pid = 0 := by
  induction is generalizing x with
  | nil => exact hx
  | cons j is ih =>
      rw [List.foldl_cons]
      exact ih ((or_self_iff).mp (Client.round_pid j (Or.inl hx)))

/-- A slot that has been given up stays so. -/
theorem remaining_pid (k : Kind) (i : ℕ) (hx : x.1.pid = 0) : (remaining k i x).1.pid = 0 := by
  cases k with
  | engine =>
      rw [remaining]
      exact foldl_round_pid .engine _ hx
  | codec =>
      rw [remaining, sweep]
      exact foldl_round_pid .engine _ (foldl_round_pid .codec _ hx)

/-- A null entry is passed over. -/
theorem remaining_skip {c : Client} {i : Fin 10} (h : c.cells k i = 0) :
    remaining k i (c, []) = remaining k (i + 1) (c, []) := by
  rw [remaining_step i.isLt, Client.round, if_neg (not_not.mpr h)]

/-- An entry is released, and taken out of a slot that is still found. -/
theorem remaining_take {c : Client} {i : Fin 10} (h : c.cells k i ≠ 0) :
    remaining k i (c, []) =
      let x := if c.pid = 0 then c else (c.drop k (c.cells k i)).settle k
      ((remaining k (i + 1) (x, [])).1,
        ⟨k, c.cells k i⟩ :: (remaining k (i + 1) (x, [])).2) := by
  rw [remaining_step i.isLt, Client.round, if_pos h, remaining_calls]
  rfl

end Rounds

namespace Task

/-- The slot that the task works on, once it is known. -/
def slot : Task → Option (Fin 10)
  | .handler _ place => place.slot
  | .lookUp _ _ => none
  | .test _ _ c _ => some c
  | .pick _ _ c _ => some c
  | .nested _ _ c _ _ _ => some c

/-- Carried on alone, the task leaves `o` in the slot of its client, and makes the
release calls `todo`. -/
def Expects (t : Clients) (o : Option Client) (todo : List CeCall) : Task → Prop
  | .handler job place => job.Expects t o place ∧ todo = job.releases
  | .lookUp p i =>
      (∃ c, getClient t p = some c ∧ i ≤ c ∧ o = some (t c).cleanup.1 ∧ todo = (t c).cleanup.2) ∨
      (getClient t p = none ∧ o = none ∧ todo = [])
  | .test p k c i =>
      Follows t p c ∧ o = some (remaining k i (t c, [])).1 ∧ todo = (remaining k i (t c, [])).2
  | .pick p k c i =>
      Follows t p c ∧ (t c).cells k i ≠ 0 ∧ o = some (remaining k i (t c, [])).1 ∧
        todo = (remaining k i (t c, [])).2
  | .nested p k c i h place =>
      ((∃ x, (t c).pid = p ∧ (place.slot = none ∨ place.slot = some c) ∧
          Job.Expects ⟨.unregister, k, p, h⟩ t (some x) place ∧
          o = some (remaining k (i + 1) (x, [])).1 ∧
          todo = ⟨k, h⟩ :: (remaining k (i + 1) (x, [])).2) ∨
        ((t c).pid = 0 ∧ getClient t p = none ∧ place.slot = none ∧
          Job.Expects ⟨.unregister, k, p, h⟩ t none place ∧
          o = some (remaining k (i + 1) (t c, [])).1 ∧
          todo = ⟨k, h⟩ :: (remaining k (i + 1) (t c, [])).2))

/-- Where the table may have changed and the slot be known after an access. -/
def Moves (p : Pid) (t : Clients) (slot slot' : Option (Fin 10)) (t' : Clients) : Prop :=
  (t' = t ∧ (slot = none ∨ slot' = slot)) ∨ ∃ c, slot = some c ∧ slot' = some c ∧ Writes p t c t'

/-- What an access is to bring about. -/
def Advances (task : Task) (t : Clients) (o : Option Client) (todo : List CeCall) :
    Clients × Option Task × List CeCall → Prop
  | (t', some task', made) => (∃ todo', todo = made ++ todo' ∧ task'.Expects t' o todo') ∧
      task'.pid = task.pid ∧ (task'.Cleans ↔ task.Cleans) ∧
      Moves task.pid t task.slot task'.slot t'
  | (t', none, made) => todo = made ∧
      ((task.slot = none ∧ t' = t ∧ getClient t task.pid = none ∧ o = none) ∨
        ∃ c, task.slot = some c ∧ o = some (t' c) ∧ Writes task.pid t c t')

section Own

variable {t : Clients} {o : Option Client} {todo : List CeCall} {p : Pid} {k : Kind} {c : Fin 10}

theorem advances_handler {job : Job} {place : Place} (hu : UniquePids t) (hp : job.pid ≠ 0)
    (hblank : place.Claims t job → UnusedBlank t)
    (h : (handler job place).Expects t o todo) :
    (handler job place).Advances t o todo ((handler job place).advance t) := by
  obtain ⟨hjob, rfl⟩ := h
  have hadvances := hjob.advance hu hp hblank
  rcases hresult : job.advance t place with ⟨t', _ | place'⟩
  · rw [hresult] at hadvances
    simp only [advance, hresult]
    exact ⟨rfl, hadvances⟩
  · rw [hresult] at hadvances
    simp only [advance, hresult]
    exact ⟨⟨_, rfl, hadvances.1, rfl⟩, rfl, Iff.rfl, hadvances.2⟩

theorem advances_lookUp (hu : UniquePids t) (hp : p ≠ 0) {i : ℕ}
    (h : (lookUp p i).Expects t o todo) :
    (lookUp p i).Advances t o todo ((lookUp p i).advance t) := by
  by_cases hi : i < 10
  · by_cases hpid : (t ⟨i, hi⟩).pid = p
    · have hfound : getClient t p = some ⟨i, hi⟩ := by
        rw [← hpid]
        exact hu.getClient_pid (hpid ▸ hp)
      rcases h with ⟨c, hc, -, ho, htodo⟩ | ⟨hnone, -⟩
      · obtain rfl : ⟨i, hi⟩ = c := Option.some.inj (hfound.symm.trans hc)
        simp only [advance, dif_pos hi, if_pos hpid]
        refine ⟨⟨todo, rfl, Or.inl hpid, ?_, ?_⟩, rfl, Iff.rfl, Or.inl ⟨rfl, Or.inl rfl⟩⟩
        · rw [ho, cleanup_eq_remaining]
        · rw [htodo, cleanup_eq_remaining]
      · exact absurd (hfound.symm.trans hnone) (Option.some_ne_none _)
    · simp only [advance, dif_pos hi, if_neg hpid]
      refine ⟨⟨todo, rfl, ?_⟩, rfl, Iff.rfl, Or.inl ⟨rfl, Or.inl rfl⟩⟩
      rcases h with ⟨c, hc, hic, hrest⟩ | hnone
      · have hne : i ≠ c := by
          rintro rfl
          exact hpid (pid_of_getClient hc)
        exact Or.inl ⟨c, hc, by omega, hrest⟩
      · exact Or.inr hnone
  · simp only [advance, dif_neg hi]
    rcases h with ⟨c, hc, hic, -⟩ | ⟨hnone, ho, htodo⟩
    · exact absurd (hic.trans_lt c.isLt) hi
    · exact ⟨htodo, Or.inl ⟨rfl, rfl, hnone, ho⟩⟩

theorem advances_test {i : ℕ} (h : (test p k c i).Expects t o todo) :
    (test p k c i).Advances t o todo ((test p k c i).advance t) := by
  obtain ⟨hfollows, ho, htodo⟩ := h
  by_cases hi : i < 10
  · by_cases hcell : (t c).cells k ⟨i, hi⟩ = 0
    · simp only [advance, dif_pos hi, if_neg (not_not.mpr hcell)]
      have hskip := remaining_skip (i := ⟨i, hi⟩) hcell
      refine ⟨⟨todo, rfl, hfollows, ?_, ?_⟩, rfl, Iff.rfl, Or.inl ⟨rfl, Or.inr rfl⟩⟩
      · rw [ho]
        exact congrArg (some ·.1) hskip
      · rw [htodo]
        exact congrArg Prod.snd hskip
    · simp only [advance, dif_pos hi, if_pos hcell]
      exact ⟨⟨todo, rfl, hfollows, hcell, ho, htodo⟩, rfl, Iff.rfl, Or.inl ⟨rfl, Or.inr rfl⟩⟩
  · cases k with
    | codec =>
        simp only [advance, dif_neg hi]
        rw [remaining_codec_end hi] at ho htodo
        exact ⟨⟨todo, rfl, hfollows, ho, htodo⟩, rfl, Iff.rfl, Or.inl ⟨rfl, Or.inr rfl⟩⟩
    | engine =>
        simp only [advance, dif_neg hi]
        rw [remaining_engine_end hi] at ho htodo
        exact ⟨htodo, Or.inr ⟨c, rfl, ho, Writes.refl hfollows⟩⟩

/-- The handler is called for an entry of a slot that it still finds, or does not. -/
theorem advances_pick {i : Fin 10} (hu : UniquePids t) (hp : p ≠ 0)
    (h : (pick p k c i).Expects t o todo) :
    (pick p k c i).Advances t o todo ((pick p k c i).advance t) := by
  obtain ⟨hfollows, hcell, ho, htodo⟩ := h
  rw [remaining_take hcell] at ho htodo
  refine ⟨⟨todo, rfl, ?_⟩, rfl, Iff.rfl, Or.inl ⟨rfl, Or.inr rfl⟩⟩
  rcases hfollows with hpid | ⟨hpid, hnone⟩
  · have hne : (t c).pid ≠ 0 := hpid ▸ hp
    have hfound : getClient t p = some c := by
      rw [← hpid]
      exact hu.getClient_pid hne
    rw [if_neg hne] at ho htodo
    exact Or.inl ⟨_, hpid, Or.inl rfl, Or.inl ⟨c, hfound, Nat.zero_le _, rfl⟩, ho, htodo⟩
  · rw [if_pos hpid] at ho htodo
    have hopens : ¬Job.Opens ⟨.unregister, k, p, (t c).cells k i⟩ := fun h => Change.noConfusion h.1
    exact Or.inr ⟨hpid, hnone, rfl, Or.inr (Or.inr ⟨hnone, hopens, rfl⟩), ho, htodo⟩

/-- A handler that the cleanup has called does not take over a slot. -/
theorem not_claims_nested {h : Handle} {x : Option Client} {place : Place}
    (hjob : Job.Expects ⟨.unregister, k, p, h⟩ t x place) :
    ¬place.Claims t ⟨.unregister, k, p, h⟩ := by
  have hopens : ¬Job.Opens ⟨.unregister, k, p, h⟩ := fun h => Change.noConfusion h.1
  intro hclaims
  cases place with
  | lookUp i => exact hopens hclaims.1
  | lookUpFree i => exact hopens hjob.1
  | claimPid c => exact hopens hjob.1
  | claimRefs c => exact hopens hjob.1
  | claimCell c => exact hopens hjob.1
  | _ => exact hclaims

theorem advances_nested {i : Fin 10} {h : Handle} {place : Place} (hu : UniquePids t) (hp : p ≠ 0)
    (hexpects : (nested p k c i h place).Expects t o todo) :
    (nested p k c i h place).Advances t o todo ((nested p k c i h place).advance t) := by
  rcases hexpects with ⟨x, hpid, hslot, hjob, ho, htodo⟩ | ⟨hpid, hnone, hslot, hjob, ho, htodo⟩
  · have hadvances := hjob.advance hu hp fun hclaims => absurd hclaims (not_claims_nested hjob)
    have hown : ∀ c', place.slot = some c' → c' = c := by
      intro c' hc'
      rcases hslot with hslot | hslot
      · exact absurd (hslot.symm.trans hc') (Option.some_ne_none _).symm
      · exact Option.some.inj (hc'.symm.trans hslot)
    rcases hresult : Job.advance ⟨.unregister, k, p, h⟩ t place with ⟨t', _ | place'⟩
    · rw [hresult] at hadvances
      simp only [advance, hresult]
      rcases hadvances with ⟨-, -, -, hx⟩ | ⟨c', hc', hx, hwrites⟩
      · exact absurd hx (Option.some_ne_none _)
      · obtain rfl := hown c' hc'
        obtain rfl := Option.some.inj hx
        refine ⟨⟨_, htodo, ?_, ho, rfl⟩, rfl, Iff.rfl, Or.inr ⟨_, rfl, rfl, hwrites⟩⟩
        obtain ⟨y, rfl, -, hy⟩ := hwrites
        rcases hy with hy | hy
        · exact Or.inl (by rwa [Function.update_self])
        · have hfound : getClient t p = some c' := by
            rw [← hpid]
            exact hu.getClient_pid (hpid ▸ hp)
          exact Or.inr ⟨by rwa [Function.update_self],
            hu.getClient_update_release hp hfound (hy ▸ hp.symm)⟩
    · rw [hresult] at hadvances
      simp only [advance, hresult]
      obtain ⟨hjob', hmoves⟩ := hadvances
      have hcarried : ∀ c', place'.slot = some c' → (t' c').pid = p := fun c' hc' =>
        (hjob'.pid_slot hc').resolve_right fun hclaims => not_claims_nested hjob' hclaims.2
      refine ⟨⟨todo, rfl, Or.inl ⟨x, ?_, ?_, hjob', ho, htodo⟩⟩, rfl, Iff.rfl, ?_⟩
      · rcases hmoves with ⟨rfl, -⟩ | ⟨c', hc', hslot', hwrites⟩
        · exact hpid
        · obtain rfl := hown c' hc'
          exact hcarried c' hslot'
      · rcases hmoves with ⟨rfl, -⟩ | ⟨c', hc', hslot', -⟩
        · cases hplace : place'.slot with
          | none => exact Or.inl rfl
          | some c' =>
              have hpid' := hcarried c' hplace
              rw [hu c' c (hpid' ▸ hp) (hpid'.trans hpid.symm)]
              exact Or.inr rfl
        · rw [hslot', ← hc']
          exact hslot
      · rcases hmoves with ⟨rfl, -⟩ | ⟨c', hc', hslot', hwrites⟩
        · exact Or.inl ⟨rfl, Or.inr rfl⟩
        · obtain rfl := hown c' hc'
          exact Or.inr ⟨c', rfl, rfl, hwrites⟩
  · -- the slot has been given up, and the handler does not find it
    have hadvances := hjob.advance hu hp fun hclaims => absurd hclaims (not_claims_nested hjob)
    rcases hresult : Job.advance ⟨.unregister, k, p, h⟩ t place with ⟨t', _ | place'⟩
    · rw [hresult] at hadvances
      simp only [advance, hresult]
      rcases hadvances with ⟨-, rfl, -⟩ | ⟨c', hc', -⟩
      · exact ⟨⟨_, htodo, Or.inr ⟨hpid, hnone⟩, ho, rfl⟩, rfl, Iff.rfl, Or.inl ⟨rfl, Or.inr rfl⟩⟩
      · exact absurd (hslot.symm.trans hc') (Option.some_ne_none _).symm
    · rw [hresult] at hadvances
      simp only [advance, hresult]
      obtain ⟨hjob', ⟨rfl, -⟩ | ⟨c', hc', -⟩⟩ := hadvances
      · have hslot' : place'.slot = none := by
          by_contra hsome
          obtain ⟨c', hc'⟩ := Option.ne_none_iff_exists'.mp hsome
          rcases hjob'.pid_slot hc' with hpid' | ⟨-, hclaims⟩
          · exact getClient_eq_none_iff.mp hnone c' hpid'
          · exact not_claims_nested hjob' hclaims
        exact ⟨⟨todo, rfl, Or.inr ⟨hpid, hnone, hslot', hjob', ho, htodo⟩⟩, rfl, Iff.rfl,
          Or.inl ⟨rfl, Or.inr rfl⟩⟩
      · exact absurd (hslot.symm.trans hc') (Option.some_ne_none _).symm

/-- Every access brings about what is expected of its task. -/
theorem Expects.advance {task : Task} (hu : UniquePids t) (hp : task.pid ≠ 0)
    (hblank : task.Claims t → UnusedBlank t) (h : task.Expects t o todo) :
    task.Advances t o todo (task.advance t) := by
  cases task with
  | handler job place => exact advances_handler hu hp hblank h
  | lookUp p i => exact advances_lookUp hu hp h
  | test p k c i => exact advances_test h
  | pick p k c i => exact advances_pick hu hp h
  | nested p k c i h place => exact advances_nested hu hp h

/-- The slot of a task carries the pid of its client, or is unused. -/
theorem Expects.pid_slot {task : Task} (h : task.Expects t o todo) (hc : task.slot = some c) :
    (t c).pid = task.pid ∨ (t c).pid = 0 ∧ (task.Claims t ∨ task.Cleans) := by
  have hfollows : ∀ {c' p}, Follows t p c' → c' = c → (t c).pid = p ∨ (t c).pid = 0 ∧ True := by
    rintro c' p hfollows rfl
    exact hfollows.imp_right fun h => ⟨h.1, trivial⟩
  cases task with
  | handler job place => exact (h.1.pid_slot hc).imp_right fun h => ⟨h.1, Or.inl h.2⟩
  | lookUp p i => cases hc
  | test p k c' i =>
      exact (hfollows h.1 (Option.some.inj hc)).imp_right fun h => ⟨h.1, Or.inr trivial⟩
  | pick p k c' i =>
      exact (hfollows h.1 (Option.some.inj hc)).imp_right fun h => ⟨h.1, Or.inr trivial⟩
  | nested p k c' i h' place =>
      obtain rfl := Option.some.inj hc
      rcases h with ⟨-, hpid, -⟩ | ⟨hpid, -⟩
      · exact Or.inl hpid
      · exact Or.inr ⟨hpid, Or.inr trivial⟩

/-- A client that something is expected to be recorded for has a slot already, unless one
is being taken over. -/
theorem Expects.has_slot {task : Task} (h : task.Expects t o todo)
    (hkept : o.bind Client.kept ≠ none) (hclaims : ¬task.Claims t) :
    getClient t task.pid ≠ none := by
  have hcarried : ∀ {c' p}, (t c').pid = p → getClient t p ≠ none := fun hpid hnone =>
    getClient_eq_none_iff.mp hnone _ hpid
  have hfollowed : ∀ {c' p k i}, Follows t p c' → o = some (remaining k i (t c', [])).1 →
      getClient t p ≠ none := by
    rintro c' p k i (hpid | ⟨hpid, -⟩) rfl
    · exact hcarried hpid
    · exact absurd (if_pos (remaining_pid k i hpid)) hkept
  cases task with
  | handler job place =>
      cases place with
      | lookUp i =>
          rcases h.1 with ⟨c, hc, -⟩ | ⟨hnone, hopens, -⟩ | ⟨-, -, rfl⟩
          · exact hcarried (pid_of_getClient hc)
          · exact absurd ⟨hopens, hnone⟩ hclaims
          · exact absurd rfl hkept
      | loadRefs c => exact hcarried h.1.1
      | storeRefs c refs => exact hcarried h.1.1
      | scan c j => exact hcarried h.1.1
      | write c j => exact hcarried h.1.1
      | testRefs c => exact hcarried h.1.1
      | vacate c => exact hcarried h.1.1
      | _ => exact absurd trivial hclaims
  | lookUp p i =>
      rcases h with ⟨c, hc, -⟩ | ⟨-, rfl, -⟩
      · exact hcarried (pid_of_getClient hc)
      · exact absurd rfl hkept
  | test p k c i => exact hfollowed h.1 h.2.1
  | pick p k c i => exact hfollowed h.1 h.2.2.1
  | nested p k c i h' place =>
      rcases h with ⟨-, hpid, -⟩ | ⟨hpid, hnone, -, -, ho, -⟩
      · exact hcarried hpid
      · exact hfollowed (Or.inr ⟨hpid, hnone⟩) ho

/-- Accesses for other clients do not matter, as long as no unused slot is lost to a
task that is looking for one. -/
theorem Expects.frame {t' : Clients} {task : Task} (h : task.Expects t o todo)
    (hpids : ∀ i, (t' i).pid = task.pid ↔ (t i).pid = task.pid)
    (hsame : ∀ i, (t i).pid = task.pid → t' i = t i)
    (hslot : ∀ c, task.slot = some c → t' c = t c)
    (hfree : task.Claims t → ∀ i, (t i).pid = 0 → (t' i).pid = 0) :
    task.Expects t' o todo := by
  have hget : getClient t' task.pid = getClient t task.pid := getClient_congr hpids
  cases task with
  | handler job place => exact ⟨h.1.frame hpids hsame hslot hfree, h.2⟩
  | lookUp p i =>
      rcases h with ⟨c, hc, hic, ho⟩ | ⟨hnone, hrest⟩
      · exact Or.inl ⟨c, hget.trans hc, hic, by rwa [hsame c (pid_of_getClient hc)]⟩
      · exact Or.inr ⟨hget.trans hnone, hrest⟩
  | test p k c i =>
      have hget : getClient t' p = getClient t p := hget
      rwa [Expects, Follows, hslot c rfl, hget]
  | pick p k c i =>
      have hget : getClient t' p = getClient t p := hget
      rwa [Expects, Follows, hslot c rfl, hget]
  | nested p k c i h' place =>
      have hget : getClient t' p = getClient t p := hget
      have hframe : ∀ x, (∀ c', place.slot = some c' → c' = c) →
          Job.Expects ⟨.unregister, k, p, h'⟩ t x place →
          Job.Expects ⟨.unregister, k, p, h'⟩ t' x place := by
        intro x hown hjob
        refine hjob.frame hpids hsame ?_ fun hclaims => absurd hclaims (not_claims_nested hjob)
        intro c' hc'
        rw [hown c' hc']
        exact hslot c rfl
      rcases h with ⟨x, hpid, hplace, hjob, hrest⟩ | ⟨hpid, hnone, hplace, hjob, hrest⟩
      · refine Or.inl ⟨x, by rwa [hslot c rfl], hplace, hframe _ ?_ hjob, hrest⟩
        intro c' hc'
        rcases hplace with hplace | hplace
        · exact absurd (hplace.symm.trans hc') (Option.some_ne_none _).symm
        · exact Option.some.inj (hc'.symm.trans hplace)
      · refine Or.inr ⟨by rwa [hslot c rfl], hget.trans hnone, hplace, hframe _ ?_ hjob, ?_⟩
        · exact fun c' hc' => absurd (hplace.symm.trans hc') (Option.some_ne_none _).symm
        · rwa [hslot c rfl]

end Own

end Task

end Libdce.Concurrency.Unlocked
