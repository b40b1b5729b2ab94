import Mathlib

/-!
# Guarded runs of a total step function

A step function says what an action does, a guard says in which states the
action may be taken. A run is a list of actions each of which is allowed where
it is taken; the state it reaches is the fold of the step function.

## Implementation notes

Keeping the guard apart from the step lets one system be studied under several
environments, and lets a run be restricted further by conjoining a condition.
All nondeterminism of a system sits in its actions.
-/

namespace Libdce.Foundation.GuardedRuns

variable {σ α : Type*} {step : σ → α → σ} {ok ok' : σ → α → Prop}

/-- The state reached by taking the actions in order. -/
def final (step : σ → α → σ) (s : σ) (as : List α) : σ := as.foldl step s

/-- Every action is allowed in the state in which it is taken. -/
def Run (step : σ → α → σ) (ok : σ → α → Prop) : σ → List α → Prop
  | _, [] => True
  | s, a :: as => ok s a ∧ Run step ok (step s a) as

instance Run.decidable [∀ s a, Decidable (ok s a)] :
    ∀ (s : σ) (as : List α), Decidable (Run step ok s as)
  | _, [] => inferInstanceAs (Decidable True)
  | s, a :: as =>
      have := Run.decidable (step s a) as
      inferInstanceAs (Decidable (ok s a ∧ Run step ok (step s a) as))

@[simp] theorem final_nil (s : σ) : final step s [] = s := rfl

@[simp] theorem final_cons (s : σ) (a : α) (as : List α) :
    final step s (a :: as) = final step (step s a) as := rfl

theorem final_append (s : σ) (as bs : List α) :
    final step s (as ++ bs) = final step (final step s as) bs :=
  List.foldl_append

@[simp] theorem final_concat (s : σ) (as : List α) (a : α) :
    final step s (as ++ [a]) = step (final step s as) a := by
  simp [final_append]

@[simp] theorem run_nil (s : σ) : Run step ok s [] := trivial

@[simp] theorem run_cons (s : σ) (a : α) (as : List α) :
    Run step ok s (a :: as) ↔ ok s a ∧ Run step ok (step s a) as := Iff.rfl

theorem run_append (s : σ) (as bs : List α) :
    Run step ok s (as ++ bs) ↔ Run step ok s as ∧ Run step ok (final step s as) bs := by
  induction as generalizing s with
  | nil => simp
  | cons a as ih => simp [ih, and_assoc]

@[simp] theorem run_concat (s : σ) (as : List α) (a : α) :
    Run step ok s (as ++ [a]) ↔ Run step ok s as ∧ ok (final step s as) a := by
  simp [run_append]

/-- A run is checked action by action, each against the prefix before it. -/
theorem run_iff_stepwise (s : σ) (as : List α) :
    Run step ok s as ↔
      ∀ bs a, bs ++ [a] <+: as → ok (final step s bs) a := by
  induction as using List.reverseRecOn with
  | nil => simp
  | append_singleton as a ih =>
      rw [run_concat, ih]
      constructor
      · rintro ⟨hrun, ha⟩ bs b hpre
        rcases List.prefix_concat_iff.mp hpre with heq | hpre
        · obtain ⟨rfl, rfl⟩ := (List.append_inj' heq rfl).imp id List.singleton_inj.mp
          exact ha
        · exact hrun bs b hpre
      · intro h
        exact ⟨fun bs b hpre => h bs b (hpre.trans (List.prefix_append _ _)),
          h as a List.prefix_rfl⟩

theorem Run.shorten {s : σ} {as bs : List α} (run : Run step ok s bs) (h : as <+: bs) :
    Run step ok s as := by
  obtain ⟨cs, rfl⟩ := h
  exact ((run_append s as cs).mp run).1

theorem run_and (s : σ) (as : List α) :
    Run step (fun s a => ok s a ∧ ok' s a) s as ↔ Run step ok s as ∧ Run step ok' s as := by
  induction as generalizing s with
  | nil => simp
  | cons a as ih => simp only [run_cons, ih]; tauto

/-- What holds initially and is kept by every allowed action holds of every
reached state. -/
theorem Run.invariant {I : σ → Prop} {s : σ} {as : List α} (run : Run step ok s as)
    (h0 : I s) (hstep : ∀ s a, I s → ok s a → I (step s a)) :
    I (final step s as) := by
  induction as generalizing s with
  | nil => exact h0
  | cons a as ih => exact ih run.2 (hstep s a h0 run.1)

/-- What an allowed action adds to a state, and none takes away, is there exactly when it
was there before or some action of the run has added it. -/
theorem Run.remembers {P : σ → Prop} {E : α → Prop} {s : σ} {as : List α}
    (run : Run step ok s as) (hstep : ∀ s a, ok s a → (P (step s a) ↔ P s ∨ E a)) :
    P (final step s as) ↔ P s ∨ ∃ a ∈ as, E a := by
  induction as generalizing s with
  | nil => simp
  | cons a as ih => rw [final_cons, ih run.2, hstep s a run.1, List.exists_mem_cons_iff, or_assoc]

/-- A map that commutes with every allowed step carries a run over to another
system. -/
theorem Run.map_final {τ : Type*} {step' : τ → α → τ} {f : σ → τ} {I : σ → Prop} {s : σ}
    {as : List α} (run : Run step ok s as) (h0 : I s) (hstep : ∀ s a, I s → ok s a → I (step s a))
    (hmap : ∀ s a, I s → ok s a → f (step s a) = step' (f s) a) :
    f (final step s as) = final step' (f s) as := by
  induction as generalizing s with
  | nil => rfl
  | cons a as ih =>
      rw [final_cons, final_cons, ← hmap s a h0 run.1]
      exact ih run.2 (hstep s a h0 run.1)

/-- Two conditions hold in every step of the same runs if they agree in the states of
an invariant that they keep. -/
theorem Run.iff_of_invariant {I : σ → Prop} {P Q : σ → α → Prop} {s : σ} {as : List α}
    (run : Run step ok s as) (h0 : I s) (hkeep : ∀ s a, I s → ok s a → Q s a → I (step s a))
    (hiff : ∀ s a, I s → ok s a → (P s a ↔ Q s a)) : Run step P s as ↔ Run step Q s as := by
  induction as generalizing s with
  | nil => exact Iff.rfl
  | cons a as ih =>
      rw [run_cons, run_cons, hiff s a h0 run.1]
      exact and_congr_right fun hq => ih run.2 (hkeep s a h0 run.1 hq)

/-- A property holds all along a run exactly when every action meets a condition,
if the condition keeps an invariant that implies the property and an action
that misses the condition loses the property at once. -/
theorem Run.forall_prefix_iff {I P : σ → Prop} {Q : σ → α → Prop} {s : σ} {as : List α}
    (run : Run step ok s as) (h0 : I s) (hI : ∀ s, I s → P s)
    (hkeep : ∀ s a, I s → ok s a → Q s a → I (step s a))
    (hlose : ∀ s a, I s → ok s a → P (step s a) → Q s a) :
    (∀ pre, pre <+: as → P (final step s pre)) ↔ Run step Q s as := by
  induction as generalizing s with
  | nil =>
      refine iff_of_true ?_ trivial
      intro pre hpre
      rw [List.prefix_nil.mp hpre]
      exact hI s h0
  | cons a as ih =>
      constructor
      · intro h
        have hq : Q s a := hlose s a h0 run.1 (h [a] ⟨as, rfl⟩)
        refine ⟨hq, (ih run.2 (hkeep s a h0 run.1 hq)).mp ?_⟩
        intro pre hpre
        exact h (a :: pre) (List.cons_prefix_cons.mpr ⟨rfl, hpre⟩)
      · rintro ⟨hq, hrest⟩ pre hpre
        rcases List.prefix_cons_iff.mp hpre with rfl | ⟨pre', rfl, hpre'⟩
        · exact hI s h0
        · exact (ih run.2 (hkeep s a h0 run.1 hq)).mpr hrest pre' hpre'

/-- Another system that matches every allowed step stays related. -/
theorem Run.related {τ : Type*} {f : τ → α → τ} {R : τ → σ → Prop} {s : σ} {t : τ} {as : List α}
    (run : Run step ok s as) (h0 : R t s)
    (hstep : ∀ t s a, R t s → ok s a → R (f t a) (step s a)) :
    R (final f t as) (final step s as) := by
  induction as generalizing s t with
  | nil => exact h0
  | cons a as ih => exact ih run.2 (hstep t s a h0 run.1)

/-- Unwinding: a run and the run of some of its actions stay related when those
actions are matched in both and the others do not show. -/
theorem Run.unwind {m : α → Prop} [DecidablePred m] {R : σ → σ → Prop} {s t : σ}
    {as : List α} (run : Run step ok s as) (h0 : R s t)
    (hmine : ∀ s t a, R s t → ok s a → m a → R (step s a) (step t a))
    (hother : ∀ s t a, R s t → ok s a → ¬m a → R (step s a) t) :
    R (final step s as) (final step t (as.filter m)) := by
  induction as generalizing s t with
  | nil => exact h0
  | cons a as ih =>
      by_cases ha : m a
      · rw [List.filter_cons_of_pos (by simpa using ha)]
        exact ih run.2 (hmine s t a h0 run.1 ha)
      · rw [List.filter_cons_of_neg (by simpa using ha)]
        exact ih run.2 (hother s t a h0 run.1 ha)

/-- A measure that no allowed action raises, and that the actions of one kind lower, is
used up by as many of them. -/
theorem Run.measure_le {m : α → Prop} [DecidablePred m] {μ : σ → ℕ} {s : σ} {as : List α}
    (run : Run step ok s as) (hle : ∀ s a, ok s a → μ (step s a) ≤ μ s)
    (hlt : ∀ s a, ok s a → m a → μ (step s a) ≤ μ s - 1) :
    μ (final step s as) ≤ μ s - as.countP m := by
  induction as generalizing s with
  | nil => exact le_rfl
  | cons a as ih =>
      have hrest := ih run.2
      rw [final_cons]
      by_cases ha : m a
      · have hstep := hlt s a run.1 ha
        rw [List.countP_cons_of_pos (by simpa using ha)]
        omega
      · have hstep := hle s a run.1
        rw [List.countP_cons_of_neg (by simpa using ha)]
        omega

end Libdce.Foundation.GuardedRuns
