import Libdce.Concurrency.Accesses

/-!
# Every event is done with

No function that looks after the table waits for another thread, and what the
others write to the table cannot keep one in a loop: a thread is done with an
event after a fixed number of accesses of its own, however the accesses of the
others fall between them.
-/

namespace Libdce.Concurrency.Unlocked

open Tracking Foundation.GuardedRuns

/-- How many accesses are left at most in a function, this one included. -/
def Place.left (change : Change) : Place → ℕ
  | .lookUp i => 17 + (10 - i)
  | .lookUpFree i => 4 + (10 - i)
  | .claimPid _ => 3
  | .claimRefs _ => 2
  | .claimCell _ => 1
  | .testRefs _ => 2
  | .vacate _ => 1
  | .loadRefs _ =>
      match change with
      | .register => 14
      | .unregister => 4
  | .storeRefs _ _ =>
      match change with
      | .register => 13
      | .unregister => 3
  | .scan _ j =>
      match change with
      | .register => 2 + (10 - j)
      | .unregister => 6 + (10 - j)
  | .write _ _ =>
      match change with
      | .register => 1
      | .unregister => 5

theorem Place.left_pos (change : Change) (place : Place) : 0 < place.left change := by
  cases place <;> cases change <;> simp only [left] <;> omega

theorem Place.left_le (change : Change) (place : Place) : place.left change ≤ 27 := by
  cases place <;> cases change <;> simp only [left] <;> omega

/-- The same from the test at the head of a cleanup loop on. -/
def cleanupLeft (k : Kind) (i : ℕ) : ℕ :=
  match k with
  | .codec => 292 + 29 * (10 - i)
  | .engine => 1 + 29 * (10 - i)

/-- How many accesses are left at most in a task, this one included. -/
def Task.left : Task → ℕ
  | .handler job place => place.left job.change
  | .lookUp _ i => 583 + (10 - i)
  | .test _ k _ i => cleanupLeft k i
  | .pick _ k _ i => cleanupLeft k (i + 1) + 28
  | .nested _ k _ i _ place => cleanupLeft k (i + 1) + place.left .unregister

/-- How many accesses a thread is away from being done. -/
def accessesLeft : Option Task → ℕ
  | some task => task.left
  | none => 0

theorem cleanupLeft_pos (k : Kind) (i : ℕ) : 0 < cleanupLeft k i := by
  cases k <;> simp only [cleanupLeft] <;> omega

theorem cleanupLeft_le (k : Kind) (i : ℕ) : cleanupLeft k i ≤ 582 := by
  cases k <;> simp only [cleanupLeft] <;> omega

theorem cleanupLeft_succ (k : Kind) {i : ℕ} (hi : i < 10) :
    cleanupLeft k i = cleanupLeft k (i + 1) + 29 := by
  cases k <;> simp only [cleanupLeft] <;> omega

theorem Task.left_pos (task : Task) : 0 < task.left := by
  cases task with
  | handler job place => exact place.left_pos job.change
  | lookUp p i => simp [left]
  | test p k c i => exact cleanupLeft_pos k i
  | pick p k c i => simp [left]
  | nested p k c i h place => exact Nat.add_pos_left (cleanupLeft_pos k _) _

theorem Task.left_le (task : Task) : task.left ≤ 593 := by
  cases task with
  | handler job place =>
      have hplace := place.left_le job.change
      simp only [left]
      omega
  | lookUp p i =>
      simp only [left]
      omega
  | test p k c i =>
      have htest := cleanupLeft_le k i
      simp only [left]
      omega
  | pick p k c i =>
      have hround := cleanupLeft_succ k i.isLt
      have htest := cleanupLeft_le k i
      simp only [left]
      omega
  | nested p k c i h place =>
      have hround := cleanupLeft_succ k i.isLt
      have htest := cleanupLeft_le k i
      have hplace := place.left_le .unregister
      simp only [left]
      omega

section Accesses

variable {t t' : Clients} {job : Job} {place place' : Place}

/-- An access leaves fewer, whatever the table holds. -/
theorem Place.left_advance (h : job.advance t place = (t', some place')) :
    place'.left job.change < place.left job.change := by
  obtain ⟨change, k, p, handle⟩ := job
  cases place with
  | lookUp i =>
      simp only [Job.advance] at h
      split at h
      · split at h
        · cases h
          cases change <;> simp only [Job.found, left] <;> omega
        · cases h
          simp only [left]
          omega
      · cases change <;> cases k <;> cases h
        simp only [left]
        omega
  | loadRefs c =>
      cases h
      cases change <;> simp only [left] <;> omega
  | storeRefs c refs =>
      cases change <;> cases k <;> cases h <;> simp only [left] <;> omega
  | scan c j =>
      simp only [Job.advance] at h
      split at h
      · split at h
        · cases h
          cases change <;> simp only [left] <;> omega
        · cases h
          cases change <;> simp only [left] <;> omega
      · cases change <;> cases h
        simp only [left]
        omega
  | write c j =>
      cases change <;> cases h
      simp only [left]
      omega
  | testRefs c =>
      simp only [Job.advance] at h
      split at h <;> cases h
      simp only [left]
      omega
  | vacate c => cases h
  | lookUpFree i =>
      simp only [Job.advance] at h
      split at h
      · split at h <;> (cases h; simp only [left]; omega)
      · cases h
  | claimPid c =>
      cases h
      simp only [left]
      omega
  | claimRefs c =>
      cases h
      simp only [left]
      omega
  | claimCell c => cases h

theorem Task.left_advance (task : Task) (t : Clients) :
    accessesLeft (task.advance t).2.1 ≤ task.left - 1 := by
  cases task with
  | handler job place =>
      rcases hresult : job.advance t place with ⟨t', _ | place'⟩
      · simp [advance, hresult, accessesLeft]
      · have hless := Place.left_advance hresult
        simp only [advance, hresult, accessesLeft, left]
        omega
  | lookUp p i =>
      simp only [advance]
      split
      · split
        · simp only [accessesLeft, left, cleanupLeft]
          omega
        · simp only [accessesLeft, left]
          omega
      · simp [accessesLeft]
  | test p k c i =>
      simp only [advance]
      split
      · next hi =>
          have hround := cleanupLeft_succ k hi
          split
          · simp only [accessesLeft, left]
            omega
          · simp only [accessesLeft, left]
            omega
      · cases k <;> simp only [accessesLeft, left, cleanupLeft] <;> omega
  | pick p k c i =>
      simp only [advance, accessesLeft, left, Place.left]
      omega
  | nested p k c i h place =>
      rcases hresult : Job.advance ⟨.unregister, k, p, h⟩ t place with ⟨t', _ | place'⟩
      · have hpos := place.left_pos .unregister
        simp only [advance, hresult, accessesLeft, left]
        omega
      · have hless := Place.left_advance hresult
        simp only [advance, hresult, accessesLeft, left]
        dsimp only at hless
        omega

end Accesses

section Runs

variable {ι : Type*} [DecidableEq ι] {w : ι}

theorem accessesLeft_advance (s : State ι) :
    accessesLeft ((s.step (.advance w)).tasks w) ≤ accessesLeft (s.tasks w) - 1 := by
  cases htask : s.tasks w with
  | none => simp [State.step, htask, accessesLeft]
  | some task =>
      simp only [State.step, htask, Function.update_self]
      exact task.left_advance s.clients

theorem accessesLeft_step (s : State ι) {action : Action ι} (h : ∀ ev, action ≠ .start w ev) :
    accessesLeft ((s.step action).tasks w) ≤ accessesLeft (s.tasks w) := by
  cases action with
  | start w' ev =>
      have hw : w ≠ w' := by
        rintro rfl
        exact h ev rfl
      simp only [State.step, Function.update_of_ne hw, le_refl]
  | advance w' =>
      by_cases hw : w = w'
      · subst w'
        exact (accessesLeft_advance s).trans (Nat.sub_le _ _)
      · cases htask : s.tasks w' with
        | none => simp [State.step, htask]
        | some task => simp [State.step, htask, Function.update_of_ne hw]

/-- A thread is done with its event after 593 accesses of its own at most, wherever it
is, whatever the table holds and whatever the other threads do in between. -/
theorem done_of_accesses (s : State ι) {actions : List (Action ι)}
    (hstarts : ∀ ev, .start w ev ∉ actions) (hcount : 593 ≤ actions.count (.advance w)) :
    (final State.step s actions).tasks w = none := by
  have run : Run State.step (fun _ action => ∀ ev, action ≠ .start w ev) s actions := by
    clear hcount
    induction actions generalizing s with
    | nil => trivial
    | cons action actions ih =>
        refine ⟨fun ev heq => hstarts ev (heq ▸ List.mem_cons_self), ih _ fun ev hmem => ?_⟩
        exact hstarts ev (List.mem_cons_of_mem _ hmem)
  have hleft := run.measure_le (m := (· = .advance w)) (μ := fun s => accessesLeft (s.tasks w))
    (fun s action h => accessesLeft_step s h)
    (fun s action _ h => h ▸ accessesLeft_advance s)
  have hcount' : actions.countP (· = .advance w) = actions.count (.advance w) := by
    rw [List.count]
    apply List.countP_congr
    simp
  cases htask : (final State.step s actions).tasks w with
  | none => rfl
  | some task =>
      have hpos := task.left_pos
      have hle : accessesLeft (s.tasks w) ≤ 593 := by
        cases s.tasks w with
        | none => exact Nat.zero_le _
        | some task => exact task.left_le
      rw [htask, accessesLeft] at hleft
      omega

end Runs

/-- Process 7 dies while process 8 creates a codec. -/
theorem done_of_accesses_two :
    (final State.step (final State.step State.zero
        [.start 0 (.obit 7), .start 1 (.viddec3Create 8 2 4)])
      (List.replicate 593 [.advance 1, .advance (0 : Fin 2)]).flatten).tasks 0 = none := by
  apply done_of_accesses
  · intro ev hmem
    obtain ⟨round, hround, hmem⟩ := List.mem_flatten.mp hmem
    rw [List.eq_of_mem_replicate hround] at hmem
    simp at hmem
  · rw [List.count_flatten, List.map_replicate, List.sum_replicate]
    decide

end Libdce.Concurrency.Unlocked
