import Libdce.Foundation.Decimal
import Libdce.Foundation.PartialTransfers

/-!
# Format strings

A format string is parsed into the characters and the conversions that it spells, and
expanded with the arguments. `snprintf` stores as much of the text as the size allows, with
a NUL behind it.

## Implementation notes

The conversions are `%d`, `%0Nd` and `%%`; a format with any other is not parsed, nor one
that ends inside a conversion. Arguments that are not used are ignored, and an expansion
that runs out of them has no value.
-/

namespace Libdce.Foundation.Format

open Bytes Decimal PartialTransfers

/-- What a format string is made of. -/
inductive Piece where
  | char (c : Byte)
  | int (width : ℕ)
  deriving DecidableEq

/-- What has been read of a conversion: nothing, a percent sign, or also a zero and the
digits of a width. -/
inductive Mode where
  | text
  | percent
  | width (n : ℕ)
  deriving DecidableEq

/-- The pieces of a format string, from some place on. -/
def parse : Mode → List Byte → Option (List Piece)
  | .text, [] => some []
  | .percent, [] => none
  | .width _, [] => none
  | .text, c :: cs => if c = 37 then parse .percent cs else (parse .text cs).map (.char c :: ·)
  | .percent, c :: cs =>
      if c = 37 then (parse .text cs).map (.char 37 :: ·)
      else if c = 100 then (parse .text cs).map (.int 0 :: ·)
      else if c = 48 then parse (.width 0) cs
      else none
  | .width n, c :: cs =>
      if IsDigit c then parse (.width (shift n c)) cs
      else if c = 100 then (parse .text cs).map (.int n :: ·)
      else none

/-- How many arguments some pieces take. -/
def conversions : List Piece → ℕ
  | [] => 0
  | .char _ :: ps => conversions ps
  | .int _ :: ps => conversions ps + 1

/-- The text of some pieces for some arguments. -/
def expand : List Piece → List ℤ → Option (List Byte)
  | [], _ => some []
  | .char c :: ps, args => (expand ps args).map (c :: ·)
  | .int width :: ps, x :: args => (expand ps args).map (formatInt width x ++ ·)
  | .int _ :: _, [] => none

/-- `snprintf(b, n, ..)` of a text: at most `n` bytes, with the NUL. -/
def snprintf (b : Buffer) (n : ℕ) (text : List Byte) : Buffer :=
  if n = 0 then b else store b 0 (text.take (n - 1) ++ [0])

section Parse

variable {mode mode' : Mode} {c : Byte} {cs : List Byte} {p : Piece} {ps : List Piece}

/-- How many characters of a conversion have been read at least. -/
def Mode.begun : Mode → ℕ
  | .text => 0
  | .percent => 1
  | .width _ => 2

/-- What the pieces of a format string have to do with it: a conversion takes two
characters at least, and the other characters are found in it. -/
structure Parsed (mode : Mode) (cs : List Byte) (ps : List Piece) : Prop where
  length : ps.length + conversions ps ≤ mode.begun + cs.length
  chars : ∀ c, .char c ∈ ps → c ∈ cs ∨ c = 37

/-- A character that does not end a piece. -/
theorem Parsed.more (h : Parsed mode' cs ps) (hmode : mode'.begun ≤ mode.begun + 1) :
    Parsed mode (c :: cs) ps := by
  constructor
  · have hlength := h.length
    rw [List.length_cons]
    omega
  · intro d hd
    exact (h.chars d hd).imp_left (List.mem_cons_of_mem c)

/-- A character that ends a piece. -/
theorem Parsed.piece (h : Parsed .text cs ps) (hlength : conversions [p] ≤ mode.begun)
    (hchar : ∀ d, p = .char d → d = c) : Parsed mode (c :: cs) (p :: ps) := by
  constructor
  · have hrest := h.length
    have hconversions : conversions (p :: ps) = conversions ps + conversions [p] := by
      cases p <;> rfl
    simp only [Mode.begun] at hrest
    rw [List.length_cons, List.length_cons, hconversions]
    omega
  · intro d hd
    obtain hlast | hrest := List.mem_cons.mp hd
    · rw [hchar d hlast.symm]
      exact Or.inl (List.mem_cons_self ..)
    · exact (h.chars d hrest).imp_left (List.mem_cons_of_mem c)

/-- What has been parsed. -/
theorem parsed_of_parse (hparse : parse mode cs = some ps) : Parsed mode cs ps := by
  fun_induction parse mode cs generalizing ps with
  | case1 =>
      cases hparse
      exact ⟨Nat.zero_le _, fun c hc => absurd hc List.not_mem_nil⟩
  | case2 => cases hparse
  | case3 => cases hparse
  | case4 cs ih => exact (ih hparse).more le_rfl
  | case5 c cs hc ih =>
      obtain ⟨rest, hrest, rfl⟩ := Option.map_eq_some_iff.mp hparse
      apply (ih hrest).piece le_rfl
      rintro d ⟨⟩
      rfl
  | case6 cs ih =>
      obtain ⟨rest, hrest, rfl⟩ := Option.map_eq_some_iff.mp hparse
      apply (ih hrest).piece (Nat.zero_le _)
      rintro d ⟨⟩
      rfl
  | case7 cs hc ih =>
      obtain ⟨rest, hrest, rfl⟩ := Option.map_eq_some_iff.mp hparse
      apply (ih hrest).piece le_rfl
      rintro d ⟨⟩
  | case8 cs _ _ ih => exact (ih hparse).more le_rfl
  | case9 => cases hparse
  | case10 n c cs hc ih => exact (ih hparse).more (Nat.le_succ 2)
  | case11 n cs hc ih =>
      obtain ⟨rest, hrest, rfl⟩ := Option.map_eq_some_iff.mp hparse
      apply (ih hrest).piece
      · exact Nat.le_succ 1
      · rintro d ⟨⟩
  | case12 => cases hparse

end Parse

section Expand

variable {ps : List Piece} {args : List ℤ} {text : List Byte} {x y : ℤ}

/-- Without a conversion the arguments do not matter. -/
theorem expand_of_conversions_eq_zero (hps : conversions ps = 0) :
    ∃ text, text.length = ps.length ∧ ∀ args, expand ps args = some text := by
  induction ps with
  | nil => exact ⟨[], rfl, fun args => rfl⟩
  | cons p ps ih =>
      cases p with
      | char c =>
          obtain ⟨text, hlength, htext⟩ := ih hps
          refine ⟨c :: text, congrArg Nat.succ hlength, ?_⟩
          intro args
          rw [expand, htext, Option.map_some]
      | int width => cases hps

/-- With one conversion, the text of the first argument stands between two others. -/
theorem expand_of_conversions_eq_one (hps : conversions ps = 1) :
    ∃ width before behind, .int width ∈ ps ∧ before.length + behind.length + 1 = ps.length ∧
      ∀ x args, expand ps (x :: args) = some (before ++ formatInt width x ++ behind) := by
  induction ps with
  | nil => cases hps
  | cons p ps ih =>
      cases p with
      | char c =>
          obtain ⟨width, before, behind, hmem, hlength, htext⟩ := ih hps
          refine ⟨width, c :: before, behind, List.mem_cons_of_mem _ hmem, ?_, ?_⟩
          · rw [List.length_cons, List.length_cons]
            omega
          · intro x args
            rw [expand, htext, Option.map_some]
            rfl
      | int width =>
          obtain ⟨behind, hlength, htext⟩ := expand_of_conversions_eq_zero (Nat.succ.inj hps)
          refine ⟨width, [], behind, List.mem_cons_self .., ?_, ?_⟩
          · rw [List.length_cons, hlength, List.length_nil, Nat.zero_add]
          · intro x args
            rw [expand, htext, Option.map_some]
            rfl

/-- One conversion tells its argument. -/
theorem expand_inj (hps : conversions ps = 1) : expand ps [x] = expand ps [y] ↔ x = y := by
  constructor
  · intro h
    obtain ⟨width, before, behind, -, -, htext⟩ := expand_of_conversions_eq_one hps
    rw [htext, htext, Option.some.injEq, List.append_left_inj, List.append_right_inj] at h
    exact formatInt_injective width h
  · rintro rfl
    rfl

/-- There is no NUL in a text if there is none in the pieces. -/
theorem zero_notMem_expand (hps : .char 0 ∉ ps) (hexpand : expand ps args = some text) :
    0 ∉ text := by
  fun_induction expand ps args generalizing text with
  | case1 =>
      cases hexpand
      exact List.not_mem_nil
  | case2 c ps args ih =>
      obtain ⟨rest, hrest, rfl⟩ := Option.map_eq_some_iff.mp hexpand
      rw [List.mem_cons, not_or] at hps ⊢
      refine ⟨?_, ih hps.2 hrest⟩
      rintro rfl
      exact hps.1 rfl
  | case3 width ps x args ih =>
      obtain ⟨rest, hrest, rfl⟩ := Option.map_eq_some_iff.mp hexpand
      rw [List.mem_append, not_or]
      exact ⟨zero_notMem_formatInt width x, ih (fun h => hps (List.mem_cons_of_mem _ h)) hrest⟩
  | case4 => cases hexpand

end Expand

section Snprintf

variable {b : Buffer} {n m : ℕ} {text : List Byte}

/-- Nothing is stored behind the given size. -/
theorem snprintf_apply_of_le {k : ℕ} (hk : n ≤ k) : snprintf b n text k = b k := by
  rw [snprintf]
  split
  · rfl
  · apply store_apply_of_apart
    simp only [List.length_append, List.length_take, List.length_singleton]
    omega

/-- As much of the text is found again as the size allows. -/
theorem string_snprintf (htext : 0 ∉ text) (hn : 0 < n) (hm : n ≤ m) :
    (snprintf b n text).string 0 m = some (CString.cut ⟨text, htext⟩ (n - 1)) := by
  have hlength : (text.take (n - 1) ++ [0]).length ≤ m := by
    rw [List.length_append, List.length_take, List.length_singleton]
    omega
  have hstored : (snprintf b n text).field 0 (text.take (n - 1) ++ [0]).length =
      text.take (n - 1) ++ [0] := by
    rw [snprintf, if_neg hn.ne']
    exact field_store b 0 _
  obtain ⟨d, rfl⟩ := Nat.exists_eq_add_of_le hlength
  apply Buffer.string_of_field_append
  rw [Buffer.field_add, hstored, List.append_assoc, List.singleton_append]

end Snprintf

section Plain

variable {before cs : List Byte} {ps : List Piece} {args : List ℤ}

end Plain

end Libdce.Foundation.Format
