import Mathlib

/-!
# Arithmetic on C `int`s

The operations of C on 32-bit `int`s, as partial functions on the integers. A result that
does not fit and a division by zero are undefined in C, and are `none` here, so that a
computation that has a value has met neither on its way.
-/

namespace Libdce.Foundation.CheckedInt

/-- The values of an `int`. -/
def InRange (x : ℤ) : Prop := -2 ^ 31 ≤ x ∧ x < 2 ^ 31

instance : DecidablePred InRange := fun _ => inferInstanceAs (Decidable (_ ∧ _))

/-- A result, if it fits. -/
def checked (x : ℤ) : Option ℤ := if InRange x then some x else none

/-- `x + y`. -/
def add (x y : ℤ) : Option ℤ := checked (x + y)

/-- `x * y`. -/
def mul (x y : ℤ) : Option ℤ := checked (x * y)

/-- `x / y`, rounded to zero. -/
def div (x y : ℤ) : Option ℤ := if y = 0 then none else checked (x.tdiv y)

/-- `x & ~(2^n - 1)`. -/
def clearLow (x : ℤ) (n : ℕ) : ℤ := Int.land x (Int.lnot (2 ^ n - 1))

variable {x y z : ℤ}

theorem checked_eq_some_iff : checked x = some z ↔ InRange x ∧ x = z := by
  rw [checked]
  split <;> simp_all

theorem add_eq_some_iff : add x y = some z ↔ InRange (x + y) ∧ x + y = z := checked_eq_some_iff

theorem mul_eq_some_iff : mul x y = some z ↔ InRange (x * y) ∧ x * y = z := checked_eq_some_iff

theorem div_eq_some_iff : div x y = some z ↔ y ≠ 0 ∧ InRange (x.tdiv y) ∧ x.tdiv y = z := by
  rw [div]
  split
  · simp_all
  · simp_all [checked_eq_some_iff]

theorem ldiff_two_pow_sub_one (a n : ℕ) : Nat.ldiff a (2 ^ n - 1) = 2 ^ n * (a / 2 ^ n) := by
  apply Nat.eq_of_testBit_eq
  intro i
  have hmul := Nat.testBit_two_pow_mul_add (a / 2 ^ n) (Nat.two_pow_pos n) i
  rw [Nat.add_zero] at hmul
  rw [Nat.testBit_ldiff, Nat.testBit_two_pow_sub_one, hmul]
  by_cases hi : i < n
  · simp [hi]
  · simp [hi, Nat.testBit_div_two_pow, Nat.sub_add_cancel (not_lt.mp hi)]

theorem lor_two_pow_sub_one (a n : ℕ) :
    a ||| (2 ^ n - 1) = 2 ^ n * (a / 2 ^ n) + (2 ^ n - 1) := by
  have hpos := Nat.two_pow_pos n
  apply Nat.eq_of_testBit_eq
  intro i
  rw [Nat.testBit_or, Nat.testBit_two_pow_sub_one,
    Nat.testBit_two_pow_mul_add (a / 2 ^ n) (by omega) i]
  by_cases hi : i < n
  · simp [hi]
  · simp [hi, Nat.testBit_div_two_pow, Nat.sub_add_cancel (not_lt.mp hi)]

/-- Clearing the low bits rounds down to a multiple of the power of two. -/
theorem clearLow_eq (x : ℤ) (n : ℕ) : clearLow x n = 2 ^ n * (x / 2 ^ n) := by
  have hpos := Nat.two_pow_pos n
  have hmask : (2 ^ n - 1 : ℤ) = ((2 ^ n - 1 : ℕ) : ℤ) := by
    rw [Nat.cast_sub hpos]
    simp
  rw [clearLow, hmask]
  cases x with
  | ofNat a =>
      change ((Nat.ldiff a (2 ^ n - 1) : ℕ) : ℤ) = 2 ^ n * ((a : ℤ) / 2 ^ n)
      rw [ldiff_two_pow_sub_one]
      simp
  | negSucc a =>
      change Int.negSucc (a ||| (2 ^ n - 1)) = 2 ^ n * (Int.negSucc a / 2 ^ n)
      rw [lor_two_pow_sub_one, Int.negSucc_ediv a (by positivity), Int.negSucc_eq]
      have hdiv : (a : ℤ).ediv (2 ^ n) = ((a / 2 ^ n : ℕ) : ℤ) := by simp; rfl
      rw [hdiv]
      push_cast [Nat.cast_sub hpos]
      ring

end Libdce.Foundation.CheckedInt
