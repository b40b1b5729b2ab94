import Libdce.Foundation.Bytes

/-!
# Numbers in decimal

The text of a number as `printf` writes it, with a sign and as many zeros as a width asks
for, and the number that `atoi` reads.

## Implementation notes

A character is its byte. Numbers have no bound here; a value that is no `int` has to be
dealt with where it is used.
-/

namespace Libdce.Foundation.Decimal

open Bytes

/-- The character of a digit. -/
def digit (d : ℕ) : Byte := BitVec.ofNat 8 (48 + d)

/-- `isdigit`. -/
def IsDigit (c : Byte) : Prop := 48 ≤ c.toNat ∧ c.toNat ≤ 57

instance : DecidablePred IsDigit := fun _ => inferInstanceAs (Decidable (_ ∧ _))

/-- `isspace`. -/
def IsSpace (c : Byte) : Prop := c = 32 ∨ (9 ≤ c.toNat ∧ c.toNat ≤ 13)

instance : DecidablePred IsSpace := fun _ => inferInstanceAs (Decidable (_ ∨ _))

/-- What is added to a number by a digit behind it. -/
def shift (n : ℕ) (c : Byte) : ℕ := 10 * n + (c.toNat - 48)

/-- The value of some digits. -/
def value (cs : List Byte) : ℕ := cs.foldl shift 0

/-- The digits of a number, at least one. -/
def decimal (n : ℕ) : List Byte :=
  if n = 0 then [digit 0] else (Nat.digits 10 n).reverse.map digit

/-- The text for `%d` with a width that is filled up with zeros. -/
def formatInt (width : ℕ) (x : ℤ) : List Byte :=
  let sign : List Byte := if x < 0 then [45] else []
  let digits := decimal x.natAbs
  sign ++ List.replicate (width - (sign.length + digits.length)) (digit 0) ++ digits

/-- `atoi`: after blanks and a sign, the digits up to the first other character. -/
def atoi (cs : List Byte) : ℤ :=
  match cs.dropWhile IsSpace with
  | [] => 0
  | c :: ds =>
      if c = 45 then -(value (ds.takeWhile IsDigit) : ℤ)
      else if c = 43 then value (ds.takeWhile IsDigit)
      else value ((c :: ds).takeWhile IsDigit)

theorem toNat_digit {d : ℕ} (hd : d < 10) : (digit d).toNat = 48 + d := by
  rw [digit, BitVec.toNat_ofNat]
  omega

theorem isDigit_digit {d : ℕ} (hd : d < 10) : IsDigit (digit d) := by
  rw [IsDigit, toNat_digit hd]
  omega

theorem shift_digit (n : ℕ) {d : ℕ} (hd : d < 10) : shift n (digit d) = 10 * n + d := by
  rw [shift, toNat_digit hd, Nat.add_sub_cancel_left]

/-- Digits from the least significant on give their value back to front. -/
theorem value_reverse_map_digit {ds : List ℕ} (hds : ∀ d ∈ ds, d < 10) :
    value (ds.reverse.map digit) = Nat.ofDigits 10 ds := by
  induction ds with
  | nil => rfl
  | cons d ds ih =>
      obtain ⟨hd, hrest⟩ := List.forall_mem_cons.mp hds
      calc
        value ((d :: ds).reverse.map digit) = shift (value (ds.reverse.map digit)) (digit d) := by
          rw [List.reverse_cons, List.map_append, value, List.foldl_append]
          rfl
        _ = 10 * Nat.ofDigits 10 ds + d := by rw [ih hrest, shift_digit _ hd]
        _ = Nat.ofDigits 10 (d :: ds) := by rw [Nat.ofDigits_cons, Nat.add_comm]

theorem value_decimal (n : ℕ) : value (decimal n) = n := by
  rw [decimal]
  split
  · next hn => rw [hn]; rfl
  · rw [value_reverse_map_digit fun d hd => Nat.digits_lt_base (by norm_num) hd,
      Nat.ofDigits_digits]

/-- Zeros in front do not change a number. -/
theorem value_replicate_append (k : ℕ) (cs : List Byte) :
    value (List.replicate k (digit 0) ++ cs) = value cs := by
  induction k with
  | zero => rfl
  | succ k ih =>
      rw [List.replicate_succ, List.cons_append, value, List.foldl_cons, shift_digit 0 (by norm_num)]
      exact ih

theorem isDigit_of_mem_decimal {n : ℕ} : ∀ c ∈ decimal n, IsDigit c := by
  intro c hc
  rw [decimal] at hc
  split at hc
  · rw [List.mem_singleton.mp hc]
    exact isDigit_digit (by norm_num)
  · obtain ⟨d, hd, rfl⟩ := List.mem_map.mp hc
    exact isDigit_digit (Nat.digits_lt_base (by norm_num) (List.mem_reverse.mp hd))

theorem decimal_ne_nil (n : ℕ) : decimal n ≠ [] := by
  rw [decimal]
  split
  · exact List.cons_ne_nil _ _
  · next hn => simpa [Nat.digits_eq_nil_iff_eq_zero] using hn

/-- A number below a power of ten has no more digits than the exponent. -/
theorem length_decimal_le {n k : ℕ} (hk : 0 < k) (hn : n < 10 ^ k) : (decimal n).length ≤ k := by
  rw [decimal]
  split
  · exact hk
  · rw [List.length_map, List.length_reverse]
    exact (Nat.digits_length_le_iff (by norm_num) n).mpr hn

/-- Digits are read to their end. -/
theorem takeWhile_isDigit {cs : List Byte} (hcs : ∀ c ∈ cs, IsDigit c) :
    cs.takeWhile IsDigit = cs :=
  List.takeWhile_eq_self_iff.mpr fun c hc => decide_eq_true (hcs c hc)

theorem atoi_of_digits {cs : List Byte} (hne : cs ≠ []) (hcs : ∀ c ∈ cs, IsDigit c) :
    atoi cs = value cs := by
  obtain ⟨c, ds, rfl⟩ := List.exists_cons_of_ne_nil hne
  have hc := hcs c (List.mem_cons_self ..)
  have hspace : ¬IsSpace c := by
    rintro (rfl | ⟨-, hhi⟩)
    · exact absurd hc (by decide)
    · exact absurd hc.1 (by omega)
  have hminus : c ≠ 45 := by
    rintro rfl
    exact absurd hc (by decide)
  have hplus : c ≠ 43 := by
    rintro rfl
    exact absurd hc (by decide)
  rw [atoi, List.dropWhile_cons_of_neg (by simpa using hspace)]
  simp only [if_neg hminus, if_neg hplus]
  rw [takeWhile_isDigit hcs]

theorem atoi_neg {cs : List Byte} (hcs : ∀ c ∈ cs, IsDigit c) : atoi (45 :: cs) = -value cs := by
  rw [atoi, List.dropWhile_cons_of_neg (by decide)]
  simp only [if_true]
  rw [takeWhile_isDigit hcs]

/-- The digits of a text, with the zeros in front of them. -/
theorem isDigit_of_mem_padded {k n : ℕ} :
    ∀ c ∈ List.replicate k (digit 0) ++ decimal n, IsDigit c := by
  intro c hc
  obtain hzero | hdigit := List.mem_append.mp hc
  · rw [List.eq_of_mem_replicate hzero]
    exact isDigit_digit (by norm_num)
  · exact isDigit_of_mem_decimal c hdigit

/-- A number is read back from its text. -/
theorem atoi_formatInt (width : ℕ) (x : ℤ) : atoi (formatInt width x) = x := by
  rw [formatInt]
  by_cases hx : x < 0
  · simp only [if_pos hx, List.cons_append, List.nil_append]
    rw [atoi_neg isDigit_of_mem_padded, value_replicate_append, value_decimal]
    omega
  · simp only [if_neg hx, List.nil_append]
    rw [atoi_of_digits (List.append_ne_nil_of_right_ne_nil _ (decimal_ne_nil _)) isDigit_of_mem_padded,
      value_replicate_append, value_decimal]
    omega

/-- Different numbers have different texts. -/
theorem formatInt_injective (width : ℕ) : Function.Injective (formatInt width) :=
  Function.LeftInverse.injective (atoi_formatInt width)

/-- There is no NUL in the text of a number. -/
theorem zero_notMem_formatInt (width : ℕ) (x : ℤ) : 0 ∉ formatInt width x := by
  have hdigit : ¬IsDigit 0 := by decide
  rw [formatInt]
  simp only [List.append_assoc]
  intro hmem
  obtain hsign | hdigits := List.mem_append.mp hmem
  · split at hsign
    · exact absurd hsign (by decide)
    · exact absurd hsign List.not_mem_nil
  · exact hdigit (isDigit_of_mem_padded 0 hdigits)

/-- Without a width, a natural number takes its digits. -/
theorem length_formatInt_zero {x : ℤ} (hx : 0 ≤ x) :
    (formatInt 0 x).length = (decimal x.toNat).length := by
  have habs : x.natAbs = x.toNat := by omega
  simp [formatInt, not_lt.mpr hx, habs]

end Libdce.Foundation.Decimal
