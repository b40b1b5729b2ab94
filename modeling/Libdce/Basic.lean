import Mathlib

/-!
# Machine words

The host and the coprocessor are 32-bit machines. Process ids, Codec Engine
handles, addresses and return codes all travel as 32-bit words; the value zero
is the null handle and the pid of an unused slot.
-/

namespace Libdce

/-- A 32-bit word. -/
abbrev Word := BitVec 32

/-- `Int pid`; the obit callback's `UInt32 pid` has the same bits. -/
abbrev Pid := Word

/-- `Engine_Handle` and `VIDDEC3_Handle`, pointers on the coprocessor. -/
abbrev Handle := Word

theorem Word.sub_eq_zero_iff (a b : Word) : a - b = 0 ↔ a = b := by
  constructor
  · intro h
    bv_omega
  · rintro rfl
    exact BitVec.sub_self a

theorem Word.toNat_succ {a : Word} (h : a.toNat < 2 ^ 32 - 1) : (a + 1).toNat = a.toNat + 1 := by
  bv_omega

theorem Word.toNat_pred {a : Word} (h : 0 < a.toNat) : (a - 1).toNat = a.toNat - 1 := by
  bv_omega

theorem Word.eq_zero_iff (a : Word) : a = 0 ↔ a.toNat = 0 := by
  bv_omega

end Libdce
