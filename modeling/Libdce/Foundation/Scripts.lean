import Libdce.Foundation.GuardedRuns

/-!
# Programs that ask their environment

A script asks its environment one question after the other, each depending on the answers
so far, or asks the same question until an answer satisfies it. A monitor watches the
questions and answers; its weakest precondition says that every question of a script is
allowed when it is asked, whatever the environment answers.

## Implementation notes

The environment has a state of its own, so that it may answer the same question in
different ways, and a question that changes something is answered by an environment that
remembers it. A poll has an invariant of the monitor. Nothing bounds how often a poll asks:
a script that does not finish ends in one of its polls.
-/

namespace Libdce.Foundation.Scripts

open GuardedRuns

/-- A program that asks questions and polls. -/
inductive Script {Q : Type} (A : Q → Type) (β : Type) where
  | done (b : β)
  | ask (q : Q) (next : A q → Script A β)
  /-- Ask until an answer satisfies. -/
  | poll (q : Q) (stop : A q → Bool) (next : A q → Script A β)

variable {Q : Type} {A : Q → Type} {β γ M ω : Type}

/-- A question and its answer. -/
abbrev Event (A : Q → Type) := Σ q, A q

/-- What answers, and what it is like afterwards. -/
abbrev Environment (A : Q → Type) (ω : Type) := ω → (q : Q) → A q × ω

namespace Script

/-- One script after the other. -/
def bind : Script A β → (β → Script A γ) → Script A γ
  | done b, k => k b
  | ask q next, k => ask q fun a => (next a).bind k
  | poll q stop next, k => poll q stop fun a => (next a).bind k

/-- What a script that has finished returns. -/
def result : Script A β → Option β
  | done b => some b
  | ask _ _ => none
  | poll _ _ _ => none

/-- A script that has asked some questions, and the environment that has answered. -/
structure Stage (A : Q → Type) (β ω : Type) where
  asked : List (Event A)
  script : Script A β
  env : ω

/-- The next question, if there is one. -/
def Stage.next (env : Environment A ω) (s : Stage A β ω) : Stage A β ω :=
  match s.script with
  | done _ => s
  | ask q next =>
      let (a, w) := env s.env q
      ⟨s.asked ++ [⟨q, a⟩], next a, w⟩
  | poll q stop next =>
      let (a, w) := env s.env q
      ⟨s.asked ++ [⟨q, a⟩], if stop a then next a else poll q stop next, w⟩

/-- The script when it has asked some number of questions, or has finished before. -/
def after (env : Environment A ω) (s : Stage A β ω) : ℕ → Stage A β ω
  | 0 => s
  | n + 1 => after env (s.next env) n

end Script

/-- What a script may ask, and what is remembered of the answers. -/
structure Monitor (A : Q → Type) (M : Type) where
  allows : M → Q → Prop
  next : M → (q : Q) → A q → M

/-- What is remembered of a question and its answer. -/
def Monitor.step (mon : Monitor A M) (m : M) (e : Event A) : M := mon.next m e.1 e.2

/-- Every question was allowed when it was asked. -/
def Monitor.Accepts (mon : Monitor A M) : M → List (Event A) → Prop :=
  Run mon.step fun m e => mon.allows m e.1

namespace Script

/-- Every question will be allowed, and what is remembered at the end satisfies the
postcondition. -/
def wp (mon : Monitor A M) (post : β → M → Prop) : Script A β → M → Prop
  | done b, m => post b m
  | ask q next, m => mon.allows m q ∧ ∀ a, (next a).wp mon post (mon.next m q a)
  | poll q stop next, m => ∃ I : M → Prop, I m ∧ ∀ m', I m' → mon.allows m' q ∧
      ∀ a, (stop a = true → (next a).wp mon post (mon.next m' q a)) ∧
        (stop a = false → I (mon.next m' q a))

/-- Every poll has a property. -/
def Polls (P : (q : Q) → (A q → Bool) → Prop) : Script A β → Prop
  | done _ => True
  | ask _ next => ∀ a, (next a).Polls P
  | poll q stop next => P q stop ∧ ∀ a, (next a).Polls P

section Rules

variable {mon : Monitor A M} {post post' : β → M → Prop} {m : M} {s : Script A β}

theorem wp_mono (h : s.wp mon post m) (hpost : ∀ b m, post b m → post' b m) :
    s.wp mon post' m := by
  induction s generalizing m with
  | done b => exact hpost b m h
  | ask q next ih => exact ⟨h.1, fun a => ih a (h.2 a)⟩
  | poll q stop next ih =>
      obtain ⟨I, hm, hI⟩ := h
      refine ⟨I, hm, fun m' hm' => ⟨(hI m' hm').1, fun a => ?_⟩⟩
      obtain ⟨hstop, hwait⟩ := (hI m' hm').2 a
      exact ⟨fun ha => ih a (hstop ha), hwait⟩

theorem wp_result {b : β} (h : s.wp mon post m) (hb : s.result = some b) : post b m := by
  cases s with
  | done b' =>
      cases hb
      exact h
  | ask q next => cases hb
  | poll q stop next => cases hb

/-- The rule of sequential composition. -/
theorem wp_bind {k : β → Script A γ} {post : γ → M → Prop}
    (h : s.wp mon (fun b m => (k b).wp mon post m) m) : (s.bind k).wp mon post m := by
  induction s generalizing m with
  | done b => exact h
  | ask q next ih => exact ⟨h.1, fun a => ih a (h.2 a)⟩
  | poll q stop next ih =>
      obtain ⟨I, hm, hI⟩ := h
      refine ⟨I, hm, fun m' hm' => ⟨(hI m' hm').1, fun a => ?_⟩⟩
      obtain ⟨hstop, hwait⟩ := (hI m' hm').2 a
      exact ⟨fun ha => ih a (hstop ha), hwait⟩

/-- A poll whose unsatisfying answers are not remembered. -/
theorem wp_poll {q : Q} {stop : A q → Bool} {next : A q → Script A β} (hok : mon.allows m q)
    (hwait : ∀ a, stop a = false → mon.next m q a = m)
    (hnext : ∀ a, stop a = true → (next a).wp mon post (mon.next m q a)) :
    (poll q stop next).wp mon post m := by
  refine ⟨fun m' => m' = m, rfl, ?_⟩
  rintro m' rfl
  exact ⟨hok, fun a => ⟨hnext a, hwait a⟩⟩

theorem Polls.bind {P : (q : Q) → (A q → Bool) → Prop} {k : β → Script A γ} (h : s.Polls P)
    (hk : ∀ b, (k b).Polls P) : (s.bind k).Polls P := by
  induction s with
  | done b => exact hk b
  | ask q next ih => exact fun a => ih a (h a)
  | poll q stop next ih => exact ⟨h.1, fun a => ih a (h.2 a)⟩

end Rules

section Runs

variable {env : Environment A ω} {mon : Monitor A M} {post : β → M → Prop} {m : M}
  {s : Stage A β ω} {P : (q : Q) → (A q → Bool) → Prop}

/-- The weakest precondition is kept by a question. -/
theorem wp_next (env : Environment A ω) (haccepts : mon.Accepts m s.asked)
    (h : s.script.wp mon post (final mon.step m s.asked)) :
    mon.Accepts m (s.next env).asked ∧
      (s.next env).script.wp mon post (final mon.step m (s.next env).asked) := by
  obtain ⟨asked, script, w⟩ := s
  cases script with
  | done b => exact ⟨haccepts, h⟩
  | ask q next =>
      simp only [Stage.next, Monitor.Accepts, run_concat, final_concat]
      exact ⟨⟨haccepts, h.1⟩, h.2 _⟩
  | poll q stop next =>
      obtain ⟨I, hm, hI⟩ := h
      simp only [Stage.next, Monitor.Accepts, run_concat, final_concat]
      refine ⟨⟨haccepts, (hI _ hm).1⟩, ?_⟩
      obtain ⟨hstop, hwait⟩ := (hI _ hm).2 (env w q).1
      cases ha : stop (env w q).1 with
      | true => exact hstop ha
      | false => exact ⟨I, hwait ha, hI⟩

/-- Soundness: every question that is asked is allowed, and the postcondition holds at the
end. -/
theorem wp_after (env : Environment A ω) (haccepts : mon.Accepts m s.asked)
    (h : s.script.wp mon post (final mon.step m s.asked)) (n : ℕ) :
    mon.Accepts m (after env s n).asked ∧
      (after env s n).script.wp mon post (final mon.step m (after env s n).asked) := by
  induction n generalizing s with
  | zero => exact ⟨haccepts, h⟩
  | succ n ih =>
      obtain ⟨haccepts', h'⟩ := wp_next env haccepts h
      exact ih haccepts' h'

theorem after_add (s : Stage A β ω) (n k : ℕ) :
    after env s (n + k) = after env (after env s n) k := by
  induction n generalizing s with
  | zero => rw [Nat.zero_add, after]
  | succ n ih => rw [Nat.succ_add, after, ih, after]

/-- While its answers do not satisfy, a poll goes on. -/
theorem after_poll {q : Q} {stop : A q → Bool} {next : A q → Script A β} {n : ℕ}
    (hs : s.script = poll q stop next)
    (hwait : ∀ k < n, stop (env (after env s k).env q).1 = false) :
    (after env s n).script = poll q stop next := by
  induction n with
  | zero => exact hs
  | succ n ih =>
      have hscript := ih fun k hk => hwait k (hk.trans (Nat.lt_succ_self n))
      rw [after_add, after, after, Stage.next, hscript]
      exact if_neg (ne_true_of_eq_false (hwait n (Nat.lt_succ_self n)))

/-- The script finishes, or it comes to a poll whose answers never satisfy. -/
def Settles (env : Environment A ω) (P : (q : Q) → (A q → Bool) → Prop) (s : Stage A β ω) : Prop :=
  (∃ n b, (after env s n).script.result = some b) ∨
    ∃ n q stop next, P q stop ∧ ∀ k, (after env s (n + k)).script = poll q stop next ∧
      stop (env (after env s (n + k)).env q).1 = false

theorem Settles.of_after {j : ℕ} (h : Settles env P (after env s j)) : Settles env P s := by
  obtain ⟨n, b, hdone⟩ | ⟨n, q, stop, next, hq, hpoll⟩ := h
  · exact Or.inl ⟨j + n, b, by rwa [after_add]⟩
  · refine Or.inr ⟨j + n, q, stop, next, hq, fun k => ?_⟩
    rw [Nat.add_assoc, after_add]
    exact hpoll k

theorem settles (hP : s.script.Polls P) : Settles env P s := by
  obtain ⟨asked, script, w⟩ := s
  induction script generalizing asked w with
  | done b => exact Or.inl ⟨0, b, rfl⟩
  | ask q next ih =>
      have hnext : Settles env P (after env ⟨asked, ask q next, w⟩ 1) :=
        ih (env w q).1 _ _ (hP (env w q).1)
      exact hnext.of_after
  | poll q stop next ih =>
      generalize hs : (⟨asked, poll q stop next, w⟩ : Stage A β ω) = s
      have hscript : s.script = poll q stop next := by rw [← hs]
      by_cases hends : ∃ k, stop (env (after env s k).env q).1 = true
      · -- the first answer that satisfies
        classical
        have hstop := Nat.find_spec hends
        have hstill := after_poll hscript fun k hk => eq_false_of_ne_true (Nat.find_min hends hk)
        generalize hmid : after env s (Nat.find hends) = mid at hstop hstill
        apply Settles.of_after (j := Nat.find hends)
        rw [hmid]
        have hnext : Settles env P (after env mid 1) := by
          rw [after, after, Stage.next, hstill]
          simp only [if_pos hstop]
          exact ih _ _ _ (hP.2 _)
        exact hnext.of_after
      · have hnever : ∀ k, stop (env (after env s k).env q).1 = false :=
          fun k => eq_false_of_ne_true fun h => hends ⟨k, h⟩
        refine Or.inr ⟨0, q, stop, next, hP.1, fun k => ?_⟩
        rw [Nat.zero_add]
        exact ⟨after_poll hscript fun k _ => hnever k, hnever k⟩

end Runs

end Script

end Libdce.Foundation.Scripts
