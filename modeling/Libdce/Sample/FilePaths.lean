import Libdce.Foundation.Format

/-!
# File paths

`get_path` expands a pattern with a count into a buffer that it keeps from call to call.
The buffer has ten bytes more than the longest pattern so far, of which `snprintf` may use
all but one, so a text may have eight characters more than its own pattern.

## Implementation notes

Memory does not run out, and a pattern has far less than 2^31 characters: it is an argument
of the program. What a larger block holds behind the bytes that `realloc` copies is given
with each call. The path of a call is read before the next one.
-/

namespace Libdce.Sample

open Foundation.Bytes Foundation.Decimal Foundation.Format

/-- The variables `len` and `path` of `get_path`, and the size of the block that `path`
points to. -/
structure PathState where
  len : ℕ
  size : ℕ
  path : Buffer

/-- Before the first call there is no block. -/
def PathState.initial : PathState := ⟨0, 0, fun _ => 0⟩

/-- What is read at `path`, if it is terminated inside the block. -/
def PathState.string (s : PathState) : Option CString := s.path.string 0 s.size

/-- `realloc` of a block of some size, where the memory behind it holds other bytes. -/
def realloc (path : Buffer) (size : ℕ) (fresh : Buffer) : Buffer := fun i =>
  if i < size then path i else fresh i

/-- A call of `get_path`, with the bytes that a `realloc` would find in memory. -/
structure PathCall where
  pattern : CString
  cnt : ℤ
  fresh : Buffer

/-- `strlen(pattern)`. -/
def PathCall.strlen (call : PathCall) : ℕ := call.pattern.chars.length

/-- The buffer is made larger if the pattern is longer than those before. -/
def PathState.grow (s : PathState) (call : PathCall) : PathState :=
  if s.len < call.strlen + 10 then
    ⟨call.strlen + 10, call.strlen + 10, realloc s.path s.size call.fresh⟩
  else s

/-- `get_path`, unless the pattern takes more arguments than the count. -/
def getPath (call : PathCall) (s : PathState) : Option PathState := do
  let pieces ← parse .text call.pattern.chars
  let text ← expand pieces [call.cnt]
  let s := s.grow call
  return { s with path := snprintf s.path (s.len - 1) text }

/-- Calls one after the other, with the states they leave behind. -/
def getPaths : List PathCall → PathState → Option (List PathState)
  | [], _ => some []
  | call :: calls, s => do
      let s' ← getPath call s
      let states ← getPaths calls s'
      return s' :: states

/-- The text of the pattern for the count, if the pattern has a single conversion. -/
def PathCall.expansion (call : PathCall) : Option (List Byte) := do
  let pieces ← parse .text call.pattern.chars
  if conversions pieces = 1 then expand pieces [call.cnt] else none

/-- The pattern has a single conversion, and the text is not much longer than it. -/
def PathCall.Covered (call : PathCall) : Prop :=
  ∃ text, call.expansion = some text ∧ text.length ≤ call.strlen + 8

/-- After the call its text can be read, and it fits in the block with its NUL. -/
def PathCall.Returned (call : PathCall) (s : PathState) : Prop :=
  ∃ path, s.string = some path ∧ call.expansion = some path.chars ∧ path.chars.length + 1 ≤ s.size

section Calls

variable {call call' : PathCall} {s s' : PathState} {calls : List PathCall} {text : List Byte}

theorem expansion_eq_some_iff : call.expansion = some text ↔
    ∃ pieces, parse .text call.pattern.chars = some pieces ∧ conversions pieces = 1 ∧
      expand pieces [call.cnt] = some text := by
  simp [PathCall.expansion, Option.bind_eq_some_iff]

/-- A text has no NUL, since the pattern has none. -/
theorem zero_notMem_expansion (htext : call.expansion = some text) : 0 ∉ text := by
  obtain ⟨pieces, hparse, -, hexpand⟩ := expansion_eq_some_iff.mp htext
  apply zero_notMem_expand _ hexpand
  intro hzero
  obtain hpattern | hpercent := (parsed_of_parse hparse).chars 0 hzero
  · exact call.pattern.noNul hpattern
  · exact absurd hpercent (by decide)

/-- A pattern tells the counts of its texts. -/
theorem cnt_eq_of_expansion_eq (hpattern : call.pattern = call'.pattern)
    (htext : call.expansion = some text) (htext' : call'.expansion = some text) :
    call.cnt = call'.cnt := by
  obtain ⟨pieces, hparse, hone, hexpand⟩ := expansion_eq_some_iff.mp htext
  obtain ⟨pieces', hparse', -, hexpand'⟩ := expansion_eq_some_iff.mp htext'
  rw [hpattern, hparse', Option.some.injEq] at hparse
  rw [hparse] at hexpand'
  exact (expand_inj hone).mp (hexpand.trans hexpand'.symm)

/-- The buffer has room for ten more characters than the pattern, and `len` is its size. -/
theorem grow_spec (hs : s.len = s.size) (call : PathCall) :
    (s.grow call).len = (s.grow call).size ∧ call.strlen + 10 ≤ (s.grow call).len := by
  rw [PathState.grow]
  split
  · exact ⟨rfl, le_rfl⟩
  · exact ⟨hs, by omega⟩

/-- One call, whatever was in the buffer. -/
theorem getPath_spec (hs : s.len = s.size) (hcall : call.Covered) :
    ∃ s', getPath call s = some s' ∧ s'.len = s'.size ∧ call.Returned s' := by
  obtain ⟨text, htext, hshort⟩ := hcall
  obtain ⟨pieces, hparse, -, hexpand⟩ := expansion_eq_some_iff.mp htext
  obtain ⟨hsize, hroom⟩ := grow_spec hs call
  have hnul := zero_notMem_expansion htext
  refine ⟨{ s.grow call with path := snprintf (s.grow call).path ((s.grow call).len - 1) text },
    ?_, hsize, ⟨text, hnul⟩, ?_, htext, ?_⟩
  · rw [getPath, hparse, Option.bind_eq_bind, Option.bind_some, hexpand]
    rfl
  · have hstring := string_snprintf (b := (s.grow call).path) hnul
      (n := (s.grow call).len - 1) (m := (s.grow call).size) (by omega) (by omega)
    rw [CString.cut_of_le (show text.length ≤ _ by omega)] at hstring
    exact hstring
  · dsimp only
    omega

/-- Whatever the pattern expands to, nothing is stored behind the block. -/
theorem getPath_apply_of_le (hs : s.len = s.size) (hpath : getPath call s = some s') {k : ℕ}
    (hk : s'.size ≤ k) : s'.path k = (s.grow call).path k := by
  obtain ⟨hsize, hroom⟩ := grow_spec hs call
  simp only [getPath, Option.bind_eq_bind, Option.bind_eq_some_iff, Option.pure_def,
    Option.some.injEq] at hpath
  obtain ⟨pieces, -, text, -, rfl⟩ := hpath
  apply snprintf_apply_of_le
  dsimp only at hk
  omega

/-- All the calls of a run. -/
theorem getPaths_spec (hs : s.len = s.size) (hcalls : ∀ call ∈ calls, call.Covered) :
    ∃ states, getPaths calls s = some states ∧ List.Forall₂ PathCall.Returned calls states := by
  induction calls generalizing s with
  | nil => exact ⟨[], rfl, List.Forall₂.nil⟩
  | cons call calls ih =>
      obtain ⟨hcall, hrest⟩ := List.forall_mem_cons.mp hcalls
      obtain ⟨s', hpath, hs', hreturned⟩ := getPath_spec hs hcall
      obtain ⟨states, hpaths, hstates⟩ := ih hs' hrest
      refine ⟨s' :: states, ?_, List.Forall₂.cons hreturned hstates⟩
      rw [getPaths, hpath, Option.bind_eq_bind, Option.bind_some, hpaths]
      rfl

/-- Calls that return the same path for one pattern have the same count. -/
theorem cnt_eq_of_string_eq (hpattern : call.pattern = call'.pattern) (h : call.Returned s)
    (h' : call'.Returned s') (hstring : s.string = s'.string) : call.cnt = call'.cnt := by
  obtain ⟨path, hpath, htext, -⟩ := h
  obtain ⟨path', hpath', htext', -⟩ := h'
  rw [hpath, hpath', Option.some.injEq] at hstring
  rw [hstring] at htext
  exact cnt_eq_of_expansion_eq hpattern htext htext'

/-- A count from 0 to `INT_MAX` has at most ten digits, and `%d` takes two characters. -/
theorem covered_of_plain {pieces : List Piece} (hparse : parse .text call.pattern.chars = some pieces)
    (hone : conversions pieces = 1) (hplain : ∀ width, .int width ∈ pieces → width = 0)
    (hlow : 0 ≤ call.cnt) (hhigh : call.cnt < 2 ^ 31) : call.Covered := by
  obtain ⟨width, before, behind, hmem, hlength, hexpand⟩ := expand_of_conversions_eq_one hone
  have hpattern := (parsed_of_parse hparse).length
  have hdigits : (formatInt width call.cnt).length ≤ 10 := by
    rw [hplain width hmem, length_formatInt_zero hlow]
    exact length_decimal_le (by norm_num) (by omega)
  refine ⟨_, expansion_eq_some_iff.mpr ⟨pieces, hparse, hone, hexpand call.cnt []⟩, ?_⟩
  simp only [Mode.begun, hone] at hpattern
  simp only [List.length_append, PathCall.strlen]
  omega

end Calls

/-- Every call returns the whole text of its own pattern and count, so that for one pattern
different counts have different paths; and `%d` is covered for every count that is not
negative. -/
theorem get_path_complete :
    (∀ calls : List PathCall, (∀ call ∈ calls, call.Covered) →
      ∃ states, getPaths calls .initial = some states ∧
        List.Forall₂ PathCall.Returned calls states ∧
        ∀ call s call' s', (call, s) ∈ calls.zip states → (call', s') ∈ calls.zip states →
          call.pattern = call'.pattern → call.cnt ≠ call'.cnt → s.string ≠ s'.string) ∧
    (∀ (call : PathCall) (pieces : List Piece), parse .text call.pattern.chars = some pieces →
      conversions pieces = 1 → (∀ width, .int width ∈ pieces → width = 0) → 0 ≤ call.cnt →
        call.cnt < 2 ^ 31 → call.Covered) := by
  constructor
  · intro calls hcalls
    obtain ⟨states, hpaths, hreturned⟩ := getPaths_spec (s := .initial) rfl hcalls
    refine ⟨states, hpaths, hreturned, ?_⟩
    intro call s call' s' hmem hmem' hpattern hne hstring
    obtain ⟨-, hzip⟩ := List.forall₂_iff_zip.mp hreturned
    exact hne (cnt_eq_of_string_eq hpattern (hzip hmem) (hzip hmem') hstring)
  · intro call pieces hparse hone hplain hlow hhigh
    exact covered_of_plain hparse hone hplain hlow hhigh

/-- `in.%d.h264`. -/
def inPattern : CString := ⟨[105, 110, 46, 37, 100, 46, 104, 50, 54, 52], by decide⟩

/-- `out.%04d.yuv`. -/
def outPattern : CString := ⟨[111, 117, 116, 46, 37, 48, 52, 100, 46, 121, 117, 118], by decide⟩

/-- `in.7.h264`. -/
example : (PathCall.expansion ⟨inPattern, 7, fun _ => 0⟩) =
    some [105, 110, 46, 55, 46, 104, 50, 54, 52] := by decide +kernel

/-- Two frames of input and one of output. -/
def frameCalls : List PathCall :=
  [⟨inPattern, 7, fun _ => 1⟩, ⟨outPattern, 12, fun _ => 2⟩, ⟨inPattern, 8, fun _ => 3⟩]

theorem covered_of_mem_frameCalls : ∀ call ∈ frameCalls, call.Covered := by
  simp only [frameCalls, List.forall_mem_cons]
  refine ⟨⟨[105, 110, 46, 55, 46, 104, 50, 54, 52], by decide +kernel, by decide⟩,
    ⟨[111, 117, 116, 46, 48, 48, 49, 50, 46, 121, 117, 118], by decide +kernel, by decide⟩,
    ⟨[105, 110, 46, 56, 46, 104, 50, 54, 52], by decide +kernel, by decide⟩, ?_⟩
  exact fun call hcall => absurd hcall List.not_mem_nil

/-- The paths of the two frames of input differ; and `%d` is covered for the largest count. -/
theorem get_path_complete_frames :
    (∃ first second third, getPaths frameCalls .initial = some [first, second, third] ∧
      List.Forall₂ PathCall.Returned frameCalls [first, second, third] ∧
      first.string ≠ third.string) ∧
    PathCall.Covered ⟨inPattern, 2147483647, fun _ => 0⟩ := by
  constructor
  · obtain ⟨states, hpaths, hreturned, hdistinct⟩ :=
      get_path_complete.1 frameCalls covered_of_mem_frameCalls
    obtain ⟨first, second, third, rfl⟩ :=
      List.length_eq_three.mp (hreturned.length_eq.symm : states.length = 3)
    refine ⟨first, second, third, hpaths, hreturned, ?_⟩
    apply hdistinct _ first _ third (List.mem_cons_self ..)
      (List.mem_cons_of_mem _ (List.mem_cons_of_mem _ (List.mem_cons_self ..)))
    · rfl
    · decide
  · apply get_path_complete.2 _ [.char 105, .char 110, .char 46, .int 0, .char 46, .char 104,
      .char 50, .char 54, .char 52] (by decide +kernel) (by decide)
    · simp
    · decide
    · decide

end Libdce.Sample
