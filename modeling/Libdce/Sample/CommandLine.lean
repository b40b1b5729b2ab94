import Libdce.Foundation.Decimal
import Libdce.Sample.FrameLayout

/-!
# The command line

`main` counts its arguments, and computes with whatever `atoi` makes of the width and the
height. All that it computes is a function of the numbers of macroblocks in a row and in a
column, which may be negative, and their product may be zero.

## Implementation notes

A number that is no `int` has no value for `atoi`; here it has, and the first sum it is in
does not.
-/

namespace Libdce.Sample

open Foundation.Bytes Foundation.CheckedInt Foundation.Decimal

/-- What `main` takes from its arguments. -/
structure CommandLine where
  oned : Bool
  width : CString
  height : CString
  inPattern : CString
  outPattern : CString
  deriving DecidableEq

/-- `"-1"`. -/
def dashOne : CString := ⟨[45, 49], by decide⟩

/-- The arguments, the name of the program among them, unless there are too few or too many. -/
def commandLine (argv : List CString) : Option CommandLine :=
  let oned : Bool := decide (argv[1]? = some dashOne)
  match if oned then argv.drop 1 else argv with
  | [_, width, height, inPattern, outPattern] => some ⟨oned, width, height, inPattern, outPattern⟩
  | _ => none

/-- What is computed from the size of a frame: the buffers for the input and the output. -/
structure FrameSetUp where
  sizes : FrameSizes
  inputLen : ℤ
  layout : OutputLayout
  deriving DecidableEq

/-- The computations for a width and a height. -/
def frameSetUp (oned : Bool) (width height : ℤ) : Option FrameSetUp := do
  let sizes ← frameSizes oned width height
  let inputLen ← mul sizes.width sizes.height
  let layout ← outputLayout sizes.paddedWidth sizes.paddedHeight sizes.stride
  return ⟨sizes, inputLen, layout⟩

/-- How `main` comes through its computations. -/
inductive SetUp where
  | usage
  | undefined
  | ready (setUp : FrameSetUp)
  deriving DecidableEq

/-- `main` up to its buffers, if nothing that it calls on the way fails. -/
def setUp (argv : List CString) : SetUp :=
  match commandLine argv with
  | none => .usage
  | some args =>
      match frameSetUp args.oned (atoi args.width.chars) (atoi args.height.chars) with
      | none => .undefined
      | some result => .ready result

/-- The command line is rejected, or all sizes have a value and there are enough buffers and
not too many. -/
@[reducible] def SetUp.Safe : SetUp → Prop
  | .usage => True
  | .undefined => False
  | .ready result => 3 ≤ result.sizes.numBuffers ∧ result.sizes.numBuffers ≤ 19

instance : DecidablePred SetUp.Safe
  | .usage | .undefined | .ready _ => inferInstance

/-- How many macroblocks a width or a height takes. -/
def macroblockCount (x : ℤ) : ℤ := (x + 15) / 16

/-- The condition on a width and a height. The macroblocks are neither none nor too many, and
a negative number of them is beyond 32768; and with the padding on all sides, one and a half
bytes for every pixel fit in an `int`, or in two dimensions the rows of 4096 bytes do. -/
structure SizesFit (oned : Bool) (width height : ℤ) : Prop where
  area : (0 < macroblockCount width * macroblockCount height ∧
      macroblockCount width * macroblockCount height < 2 ^ 23) ∨
    (-2 ^ 23 ≤ macroblockCount width * macroblockCount height ∧
      macroblockCount width * macroblockCount height < -2 ^ 15)
  planes : if oned ∧ (macroblockCount width + 11) / 8 ≠ 32 then
      -699050 ≤ (macroblockCount width + 11) / 8 * (macroblockCount height + 6) ∧
        (macroblockCount width + 11) / 8 * (macroblockCount height + 6) ≤ 699050
    else -32774 ≤ macroblockCount height ∧ macroblockCount height ≤ 32761

section Layout

variable {width height stride x : ℤ}

theorem inRange_tdiv_two (hx : InRange x) : InRange (x.tdiv 2) := by
  obtain ⟨hlo, hhi⟩ := hx
  rw [Int.tdiv_eq_ediv, Int.sign_eq_one_of_pos (by norm_num)]
  constructor
  · split <;> omega
  · split <;> omega

/-- The request for a buffer can be made. -/
theorem exists_tilerAlloc (width : ℤ) (hheight : InRange height) :
    ∃ blocks, tilerAlloc width height = some blocks := by
  rw [tilerAlloc]
  split
  · exact ⟨_, rfl⟩
  · have hhalf : div height 2 = some (height.tdiv 2) :=
      div_eq_some_iff.mpr ⟨by norm_num, inRange_tdiv_two hheight, rfl⟩
    rw [hhalf]
    exact ⟨_, rfl⟩

/-- What has to fit for buffers with some stride: the luma plane, and both planes of a
buffer that is made of pages. -/
theorem exists_outputLayout_iff :
    (∃ layout, outputLayout width height stride = some layout) ↔
      InRange (height * stride) ∧
        (stride ≠ 4096 → InRange (height * stride + (height * stride).tdiv 2)) := by
  constructor
  · rintro ⟨layout, hlayout⟩
    refine ⟨inRange_of_outputLayout hlayout, ?_⟩
    intro hstride
    simp only [outputLayout, if_pos hstride, Option.bind_eq_bind, Option.bind_eq_some_iff,
      add_eq_some_iff, mul_eq_some_iff, div_eq_some_iff, mul_comm stride] at hlayout
    obtain ⟨_, ⟨-, rfl⟩, _, ⟨-, rfl⟩, _, ⟨-, -, rfl⟩, _, ⟨hboth, -⟩, -⟩ := hlayout
    exact hboth
  · rintro ⟨hluma, hboth⟩
    have hplane : mul height stride = some (height * stride) := mul_eq_some_iff.mpr ⟨hluma, rfl⟩
    rw [outputLayout]
    by_cases hstride : stride = 4096
    · subst hstride
      have hheight : InRange height := by
        obtain ⟨hlo, hhi⟩ := hluma
        constructor <;> omega
      have hhalf : div height 2 = some (height.tdiv 2) :=
        div_eq_some_iff.mpr ⟨by norm_num, inRange_tdiv_two hheight, rfl⟩
      obtain ⟨blocks, hblocks⟩ := exists_tilerAlloc width hheight
      simp only [ne_eq, not_true, if_false, hplane, hhalf, hblocks]
      exact ⟨_, rfl⟩
    · have hswap : mul stride height = some (height * stride) :=
        mul_eq_some_iff.mpr ⟨mul_comm height stride ▸ hluma, mul_comm stride height⟩
      have hhalf : div (height * stride) 2 = some ((height * stride).tdiv 2) :=
        div_eq_some_iff.mpr ⟨by norm_num, inRange_tdiv_two hluma, rfl⟩
      have hsum := add_eq_some_iff.mpr ⟨hboth hstride, rfl⟩
      simp only [if_pos hstride, ne_eq, hplane, hswap, hhalf, hsum, tilerAlloc, Option.bind_eq_bind,
        Option.bind_some, if_true]
      exact ⟨_, rfl⟩

end Layout

section Sizes

variable {oned : Bool} {w h m n : ℤ} {sizes : FrameSizes}

/-- The sizes of a frame of some macroblocks. -/
def FrameSizes.ofMacroblocks (oned : Bool) (m n : ℤ) : FrameSizes :=
  ⟨16 * m, 16 * n, 128 * ((m + 11) / 8), 16 * (n + 6), min 16 (Int.tdiv 32768 (m * n)) + 3,
    if oned then 128 * ((m + 11) / 8) else 4096⟩

theorem FrameSizes.Computed.eq_ofMacroblocks (hsizes : sizes.Computed oned w h) :
    sizes = .ofMacroblocks oned (macroblockCount w) (macroblockCount h) := by
  obtain ⟨width, height, paddedWidth, paddedHeight, numBuffers, stride⟩ := sizes
  obtain ⟨hwidth, hheight, hpaddedWidth, hpaddedHeight, -, hnumBuffers, hstride⟩ := hsizes
  dsimp only at hwidth hheight hpaddedWidth hpaddedHeight hnumBuffers hstride
  have hpadded : paddedWidth = 128 * ((macroblockCount w + 11) / 8) := by
    rw [hpaddedWidth, hwidth, macroblockCount]
    omega
  have hpadded' : paddedHeight = 16 * (macroblockCount h + 6) := by
    rw [hpaddedHeight, hheight, macroblockCount]
    omega
  rw [hwidth, hheight, Int.mul_tdiv_cancel_left _ (by norm_num),
    Int.mul_tdiv_cancel_left _ (by norm_num)] at hnumBuffers
  rw [FrameSizes.ofMacroblocks, hstride, hnumBuffers, hpadded, hpadded', hwidth, hheight]
  rfl

/-- A quotient rounded to zero is not negative when the divisor is not, or is too large. -/
theorem tdiv_nonneg_iff {k p : ℤ} (hk : 0 < k) : 0 ≤ k.tdiv p ↔ 0 ≤ p ∨ p < -k := by
  have hneg : k.tdiv p = -(k / -p) := by
    rw [← Int.tdiv_eq_ediv_of_nonneg hk.le, Int.tdiv_neg, neg_neg]
  constructor
  · intro h
    by_contra hsmall
    have hone : 1 ≤ k / -p := by
      rw [Int.le_ediv_iff_mul_le (by omega)]
      omega
    omega
  · rintro (hp | hp)
    · exact Int.tdiv_nonneg hk.le hp
    · rw [hneg, Int.ediv_eq_zero_of_lt hk.le (by omega)]
      norm_num

/-- A factor of a number is not larger than the number. -/
theorem factor_bounds {p : ℤ} (hne : m * n ≠ 0) (hlo : -p ≤ m * n) (hhi : m * n ≤ p) :
    -p ≤ m ∧ m ≤ p := by
  apply abs_le.mp
  calc
    |m| ≤ |m| * |n| :=
      le_mul_of_one_le_right (abs_nonneg m) (Int.one_le_abs (right_ne_zero_of_mul hne))
    _ = |m * n| := (abs_mul m n).symm
    _ ≤ p := abs_le.mpr ⟨hlo, hhi⟩

/-- Rounding up gives whole macroblocks. -/
theorem align2_eq_macroblocks {x : ℤ} (hlo : -2 ^ 23 ≤ macroblockCount x)
    (hhi : macroblockCount x ≤ 2 ^ 23) : align2 x 4 = some (16 * macroblockCount x) := by
  rw [macroblockCount] at hlo hhi
  refine align2_eq_some_iff.mpr ⟨?_, by rw [macroblockCount]; norm_num⟩
  constructor <;> omega

/-- The macroblocks are found again. -/
theorem div_macroblocks (hlo : -2 ^ 23 ≤ n) (hhi : n ≤ 2 ^ 23) : div (16 * n) 16 = some n := by
  rw [div_eq_some_iff, Int.mul_tdiv_cancel_left _ (by norm_num)]
  exact ⟨by norm_num, ⟨by omega, by omega⟩, rfl⟩

/-- A quotient of 32768 fits, and so does the number of buffers. -/
theorem add_buffers {p : ℤ} (hp : p ≠ 0) :
    div 32768 p = some (Int.tdiv 32768 p) ∧
      add (min 16 (Int.tdiv 32768 p)) 3 = some (min 16 (Int.tdiv 32768 p) + 3) := by
  have hquotient := Int.natAbs_tdiv_le_natAbs 32768 p
  constructor
  · exact div_eq_some_iff.mpr ⟨hp, ⟨by omega, by omega⟩, rfl⟩
  · exact add_eq_some_iff.mpr ⟨⟨by omega, by omega⟩, rfl⟩

/-- All sizes have a value for a product of macroblocks that is not zero and not too large. -/
theorem frameSizes_eq_ofMacroblocks (hne : macroblockCount w * macroblockCount h ≠ 0)
    (hlo : -2 ^ 23 ≤ macroblockCount w * macroblockCount h)
    (hhi : macroblockCount w * macroblockCount h ≤ 2 ^ 23) :
    frameSizes oned w h = some (.ofMacroblocks oned (macroblockCount w) (macroblockCount h)) := by
  obtain ⟨hwlo, hwhi⟩ := factor_bounds hne hlo hhi
  obtain ⟨hhlo, hhhi⟩ : -2 ^ 23 ≤ macroblockCount h ∧ macroblockCount h ≤ 2 ^ 23 := by
    rw [mul_comm] at hne hlo hhi
    exact factor_bounds hne hlo hhi
  have hwidth := align2_eq_macroblocks hwlo hwhi
  have hheight := align2_eq_macroblocks hhlo hhhi
  generalize macroblockCount w = m at *
  generalize macroblockCount h = n at *
  have hcolumns : add (16 * m) (2 * padX) = some (16 * m + 64) := by
    refine add_eq_some_iff.mpr ⟨?_, rfl⟩
    rw [padX]
    constructor <;> omega
  have hpaddedWidth : align2 (16 * m + 64) 7 = some (128 * ((m + 11) / 8)) := by
    refine align2_eq_some_iff.mpr ⟨?_, by omega⟩
    constructor <;> omega
  have hpaddedHeight : add (16 * n) (4 * padY) = some (16 * (n + 6)) := by
    refine add_eq_some_iff.mpr ⟨?_, by rw [padY]; ring⟩
    rw [padY]
    constructor <;> omega
  have hproduct : mul m n = some (m * n) := mul_eq_some_iff.mpr ⟨⟨by omega, by omega⟩, rfl⟩
  obtain ⟨hquotient, hnumBuffers⟩ := add_buffers hne
  simp only [frameSizes, hwidth, hheight, hcolumns, hpaddedWidth, hpaddedHeight,
    div_macroblocks hwlo hwhi, div_macroblocks hhlo hhhi, hproduct, hquotient, hnumBuffers,
    Option.bind_eq_bind, Option.bind_some]
  rfl

/-- The planes in macroblocks: the padded rows and columns of a buffer made of pages, and
the rows of a two-dimensional one. -/
theorem planes_fit_iff :
    (InRange (16 * (n + 6) * (FrameSizes.ofMacroblocks oned m n).stride) ∧
      ((FrameSizes.ofMacroblocks oned m n).stride ≠ 4096 →
        InRange (16 * (n + 6) * (FrameSizes.ofMacroblocks oned m n).stride +
          (16 * (n + 6) * (FrameSizes.ofMacroblocks oned m n).stride).tdiv 2))) ↔
      if oned ∧ (m + 11) / 8 ≠ 32 then
        -699050 ≤ (m + 11) / 8 * (n + 6) ∧ (m + 11) / 8 * (n + 6) ≤ 699050
      else -32774 ≤ n ∧ n ≤ 32761 := by
  rw [FrameSizes.ofMacroblocks]
  dsimp only
  by_cases hmode : oned ∧ (m + 11) / 8 ≠ 32
  · obtain ⟨honed, hk⟩ := hmode
    have hplane : 16 * (n + 6) * (128 * ((m + 11) / 8)) = 2 * (1024 * ((m + 11) / 8 * (n + 6))) := by
      ring
    rw [if_pos honed, if_pos ⟨honed, hk⟩, hplane, Int.mul_tdiv_cancel_left _ (by norm_num)]
    generalize (m + 11) / 8 * (n + 6) = q
    simp only [InRange]
    omega
  · have hstride : (if oned then 128 * ((m + 11) / 8) else 4096) = 4096 := by
      split
      · next honed =>
          have hk := not_and_not_right.mp hmode honed
          rw [hk]
          norm_num
      · rfl
    rw [if_neg hmode, hstride]
    simp only [InRange]
    omega

/-- There are enough buffers and not too many, unless a quotient below zero is added. -/
theorem numBuffers_ofMacroblocks_iff :
    (3 ≤ (FrameSizes.ofMacroblocks oned m n).numBuffers ∧
      (FrameSizes.ofMacroblocks oned m n).numBuffers ≤ 19) ↔ 0 ≤ m * n ∨ m * n < -32768 := by
  rw [← tdiv_nonneg_iff (by norm_num), FrameSizes.ofMacroblocks]
  dsimp only
  omega

theorem frameSetUp_eq_some_iff {result : FrameSetUp} : frameSetUp oned w h = some result ↔
    frameSizes oned w h = some result.sizes ∧
      mul result.sizes.width result.sizes.height = some result.inputLen ∧
      outputLayout result.sizes.paddedWidth result.sizes.paddedHeight result.sizes.stride =
        some result.layout := by
  simp only [frameSetUp, Option.bind_eq_bind, Option.bind_eq_some_iff, Option.pure_def,
    Option.some.injEq]
  constructor
  · rintro ⟨sizes, hsizes, inputLen, hinput, layout, hlayout, rfl⟩
    exact ⟨hsizes, hinput, hlayout⟩
  · rintro ⟨hsizes, hinput, hlayout⟩
    exact ⟨_, hsizes, _, hinput, _, hlayout, rfl⟩

/-- The product of the macroblocks is neither zero nor negative and small, the pixels fit,
and the planes do. -/
theorem exists_frameSetUp_iff :
    (∃ result, frameSetUp oned w h = some result ∧ 3 ≤ result.sizes.numBuffers ∧
      result.sizes.numBuffers ≤ 19) ↔ SizesFit oned w h := by
  have hpixels : 16 * macroblockCount w * (16 * macroblockCount h) =
      256 * (macroblockCount w * macroblockCount h) := by ring
  constructor
  · rintro ⟨⟨sizes, inputLen, layout⟩, hresult, hbuffers⟩
    obtain ⟨hsizes, hinput, hlayout⟩ := frameSetUp_eq_some_iff.mp hresult
    have hcomputed := frameSizes_computed hsizes
    have hne := hcomputed.macroblocks
    obtain rfl := hcomputed.eq_ofMacroblocks
    refine ⟨?_, planes_fit_iff.mp (exists_outputLayout_iff.mp ⟨layout, hlayout⟩)⟩
    have hcount := numBuffers_ofMacroblocks_iff.mp hbuffers
    obtain ⟨⟨hlo, hhi⟩, -⟩ := mul_eq_some_iff.mp hinput
    dsimp only [FrameSizes.ofMacroblocks] at hne hlo hhi
    rw [Int.mul_tdiv_cancel_left _ (by norm_num), Int.mul_tdiv_cancel_left _ (by norm_num)] at hne
    rw [hpixels] at hlo hhi
    omega
  · rintro ⟨harea, hplanes⟩
    have hsizes : frameSizes oned w h = some (.ofMacroblocks oned (macroblockCount w) (macroblockCount h)) :=
      frameSizes_eq_ofMacroblocks (by omega) (by omega) (by omega)
    have hinput : mul (16 * macroblockCount w) (16 * macroblockCount h) =
        some (256 * (macroblockCount w * macroblockCount h)) := by
      rw [mul_eq_some_iff, hpixels]
      exact ⟨⟨by omega, by omega⟩, rfl⟩
    obtain ⟨layout, hlayout⟩ := exists_outputLayout_iff.mpr (planes_fit_iff.mpr hplanes)
    refine ⟨⟨_, _, layout⟩, frameSetUp_eq_some_iff.mpr ⟨hsizes, hinput, hlayout⟩, ?_⟩
    apply numBuffers_ofMacroblocks_iff.mpr
    omega

end Sizes

section Arguments

/-- A number as an argument. -/
def numeral (width : ℕ) (x : ℤ) : CString := ⟨formatInt width x, zero_notMem_formatInt width x⟩

/-- Arguments for a size, with names that are not looked at. -/
def arguments (oned : Bool) (width height : CString) : List CString :=
  .empty :: (if oned then [dashOne] else []) ++ [width, height, .empty, .empty]

theorem commandLine_arguments (oned : Bool) {width : CString} (hwidth : width ≠ dashOne)
    (height : CString) :
    commandLine (arguments oned width height) = some ⟨oned, width, height, .empty, .empty⟩ := by
  cases oned with
  | false => simp [commandLine, arguments, hwidth]
  | true => simp [commandLine, arguments]

/-- Every two numbers can be asked for in both modes: a width of `-1` that is not taken for the
option is `-01`. -/
theorem exists_commandLine (oned : Bool) (w h : ℤ) :
    ∃ argv args, commandLine argv = some args ∧ args.oned = oned ∧
      atoi args.width.chars = w ∧ atoi args.height.chars = h := by
  have hwidth : numeral 3 w ≠ dashOne := by
    intro heq
    have hlength := congrArg (fun s : CString => s.chars.length) heq
    simp only [numeral, formatInt, List.length_append, List.length_replicate, dashOne,
      List.length_cons, List.length_nil] at hlength
    omega
  exact ⟨_, _, commandLine_arguments oned hwidth (numeral 3 h), rfl, atoi_formatInt 3 w,
    atoi_formatInt 3 h⟩

end Arguments

/-- The sizes are computed safely for a command line exactly when it is rejected or its
width and height meet the condition. -/
theorem frame_sizes_safe_iff (argv : List CString) :
    (setUp argv).Safe ↔ ∀ args, commandLine argv = some args →
      SizesFit args.oned (atoi args.width.chars) (atoi args.height.chars) := by
  rw [setUp]
  cases hargs : commandLine argv with
  | none => exact iff_of_true trivial fun args hsome => absurd hsome (by simp)
  | some args =>
      simp only [Option.some.injEq, forall_eq']
      rw [← exists_frameSetUp_iff]
      cases hresult : frameSetUp args.oned (atoi args.width.chars) (atoi args.height.chars) with
      | none => simp [SetUp.Safe]
      | some result => simp [SetUp.Safe]

/-- `320 240`. -/
theorem frame_sizes_safe_iff_small : (setUp (arguments false (numeral 0 320) (numeral 0 240))).Safe := by
  rw [frame_sizes_safe_iff]
  intro args hargs
  rw [commandLine_arguments false (by decide +kernel), Option.some.injEq] at hargs
  subst hargs
  exact ⟨Or.inl (by decide +kernel), by decide +kernel⟩

/-- A width of zero is a division by zero; a negative height is a negative number of
buffers; and `65536 65536` has too many pixels. -/
theorem frame_sizes_unsafe :
    setUp (arguments false (numeral 0 0) (numeral 0 240)) = .undefined ∧
    ¬(setUp (arguments false (numeral 0 0) (numeral 0 240))).Safe ∧
    ¬(setUp (arguments false (numeral 0 320) (numeral 0 (-240)))).Safe ∧
    ¬(setUp (arguments true (numeral 0 65536) (numeral 0 65536))).Safe := by
  decide +kernel

end Libdce.Sample
