import Libdce.Foundation.Bytes

/-!
# Transfers that may be partial

A device decides how much of a request it serves: a write or a read of some bytes
transfers that many bytes, fewer, or none because it fails. A program that goes on to
the next row after a failure leaves a gap; what has been transferred is an initial part
of the whole exactly when nothing is transferred after a failure.

## Implementation notes

The device is a parameter with a state of its own, so any schedule of results is the
schedule of some device. Its answer is cut to what was asked for, and for a read to what
is left of the file.
-/

namespace Libdce.Foundation.PartialTransfers

open Bytes

/-- The answer to a request for a number of bytes, and the state afterwards. -/
abbrev Device (φ : Type*) := φ → ℕ → ℤ × φ

/-- An open file, with the results of the transfers so far. -/
structure OpenFile (φ : Type*) where
  bytes : List Byte
  pos : ℕ
  device : φ
  results : List ℤ

variable {φ : Type*} (dev : Device φ)

namespace OpenFile

/-- A file that was just opened is at its beginning. -/
def opened (bytes : List Byte) (device : φ) : OpenFile φ := ⟨bytes, 0, device, []⟩

variable (f : OpenFile φ)

/-- `write` of `len` bytes: the result, and the file afterwards. -/
def write (p : Buffer) (len : ℕ) : ℤ × OpenFile φ :=
  let (answer, device) := dev f.device len
  let n := min answer len
  (n, {
    bytes := f.bytes.take f.pos ++ p.field 0 n.toNat ++ f.bytes.drop (f.pos + n.toNat)
    pos := f.pos + n.toNat
    device := device
    results := f.results ++ [n] })

/-- `read` of `len` bytes: the result, the bytes, and the file afterwards. -/
def read (len : ℕ) : ℤ × List Byte × OpenFile φ :=
  let (answer, device) := dev f.device len
  let n := min answer (min len (f.bytes.length - f.pos) : ℕ)
  (n, (f.bytes.drop f.pos).take n.toNat,
    { f with pos := f.pos + n.toNat, device := device, results := f.results ++ [n] })

/-- Since it was opened with some content, the file has been given some bytes. -/
structure Written (old data : List Byte) (f : OpenFile φ) : Prop where
  bytes : f.bytes = data ++ old.drop data.length
  pos : f.pos = data.length

variable {dev f} {old data : List Byte}

theorem written_opened (old : List Byte) (device : φ) : Written old [] (opened old device) :=
  ⟨rfl, rfl⟩

/-- What has been written is what stands before the position. -/
theorem Written.unique {data' : List Byte} (h : Written old data f) (h' : Written old data' f) :
    data = data' := by
  have hlength := h.pos.symm.trans h'.pos
  have hbytes := h.bytes.symm.trans h'.bytes
  exact (List.append_inj hbytes hlength).1

/-- A write adds the bytes it transfers. -/
theorem Written.write (h : Written old data f) (dev : Device φ) (p : Buffer) (len : ℕ) :
    Written old (data ++ p.field 0 (f.write dev p len).1.toNat) (f.write dev p len).2 := by
  have hlength : (data ++ p.field 0 (f.write dev p len).1.toNat).length =
      data.length + (f.write dev p len).1.toNat := by
    rw [List.length_append, Buffer.length_field]
  refine ⟨?_, ?_⟩
  · rw [hlength]
    simp only [OpenFile.write, h.bytes, h.pos, List.take_left']
    rw [← List.drop_drop, List.drop_left, List.drop_drop]
  · rw [hlength]
    simp only [OpenFile.write, h.pos]

/-- What a read can transfer. -/
theorem read_result (dev : Device φ) (f : OpenFile φ) (len : ℕ) :
    (f.read dev len).1 ≤ (f.bytes.length - f.pos : ℕ) ∧
      (f.read dev len).2.1 = (f.bytes.drop f.pos).take (f.read dev len).1.toNat ∧
      (f.read dev len).2.2.bytes = f.bytes ∧
      (f.read dev len).2.2.pos = f.pos + (f.read dev len).1.toNat ∧
      (f.read dev len).2.2.results = f.results ++ [(f.read dev len).1] := by
  refine ⟨?_, rfl, rfl, rfl, rfl⟩
  have hmin := min_le_right (dev f.device len).1 ((min len (f.bytes.length - f.pos) : ℕ) : ℤ)
  exact hmin.trans (Int.ofNat_le.mpr (Nat.min_le_right _ _))

end OpenFile

/-- Store bytes at an offset. -/
def store (b : Buffer) (i : ℕ) (data : List Byte) : Buffer := fun j =>
  if i ≤ j ∧ j < i + data.length then data.getD (j - i) 0 else b j

theorem store_apply_of_apart (b : Buffer) {i j : ℕ} {data : List Byte}
    (h : j < i ∨ i + data.length ≤ j) : store b i data j = b j := if_neg (by omega)

theorem field_store (b : Buffer) (i : ℕ) (data : List Byte) :
    (store b i data).field i data.length = data := by
  apply List.ext_getElem
  · exact Buffer.length_field _ _ _
  · intro k hk hk'
    simp only [Buffer.field, List.getElem_map, List.getElem_range, store, Nat.add_sub_cancel_left]
    rw [if_pos (by omega), List.getD_eq_getElem?_getD, List.getElem?_eq_getElem hk', Option.getD_some]

theorem store_nil (b : Buffer) (i : ℕ) : store b i [] = b := by
  funext j
  apply store_apply_of_apart
  rw [List.length_nil]
  omega

/-- Stores one behind the other are one store. -/
theorem store_store (b : Buffer) (i : ℕ) (data data' : List Byte) :
    store (store b i data) (i + data.length) data' = store b i (data ++ data') := by
  funext j
  simp only [store, List.length_append, List.getD_eq_getElem?_getD]
  by_cases hfirst : i ≤ j ∧ j < i + data.length
  · rw [if_neg (by omega), if_pos hfirst, if_pos (by omega), List.getElem?_append_left (by omega)]
  · by_cases hsecond : i + data.length ≤ j ∧ j < i + data.length + data'.length
    · rw [if_pos hsecond, if_pos (by omega), List.getElem?_append_right (by omega), Nat.sub_sub]
    · rw [if_neg hsecond, if_neg hfirst, if_neg (by omega)]

/-- How many bytes went through. -/
def transferred (results : List ℤ) : ℕ := (results.map Int.toNat).sum

/-- Nothing is transferred after a failure. -/
def FailsForGood (results : List ℤ) : Prop := results.Pairwise fun n m => n ≤ 0 → m ≤ 0

instance : DecidablePred FailsForGood := fun _ => inferInstanceAs (Decidable (List.Pairwise _ _))

@[simp] theorem transferred_nil : transferred [] = 0 := rfl

@[simp] theorem transferred_cons (n : ℤ) (results : List ℤ) :
    transferred (n :: results) = n.toNat + transferred results := rfl

theorem transferred_append (rs rs' : List ℤ) :
    transferred (rs ++ rs') = transferred rs + transferred rs' := by
  simp [transferred]

theorem transferred_flatten (rss : List (List ℤ)) :
    transferred rss.flatten = (rss.map transferred).sum := by
  induction rss with
  | nil => rfl
  | cons rs rss ih => rw [List.flatten_cons, transferred_append, ih, List.map_cons, List.sum_cons]

theorem transferred_eq_zero_iff {results : List ℤ} :
    transferred results = 0 ↔ ∀ n ∈ results, n ≤ 0 := by
  simp [transferred, List.sum_eq_zero_iff, Int.toNat_eq_zero]

/-- The writes of one piece of data: the next one asks for what is left, until nothing is
left or one fails. -/
def pieceResults (len : ℕ) (d : φ) : List ℤ × φ :=
  if len = 0 then ([], d)
  else
    let n := min (dev d len).1 len
    if 0 < n then
      let (rest, d') := pieceResults (len - n.toNat) (dev d len).2
      (n :: rest, d')
    else ([n], (dev d len).2)
termination_by len
decreasing_by omega

/-- One write, and then the writes of what is left unless it has failed. -/
theorem pieceResults_of_ne_zero {len : ℕ} (hlen : len ≠ 0) (d : φ) :
    pieceResults dev len d =
      if 0 < min (dev d len).1 (len : ℤ) then
        (min (dev d len).1 (len : ℤ) ::
            (pieceResults dev (len - (min (dev d len).1 (len : ℤ)).toNat) (dev d len).2).1,
          (pieceResults dev (len - (min (dev d len).1 (len : ℤ)).toNat) (dev d len).2).2)
      else ([min (dev d len).1 (len : ℤ)], (dev d len).2) := by
  rw [pieceResults, if_neg hlen]

/-- The results of the writes of a piece: all of it went through, or the last one failed. -/
structure PieceResults (len : ℕ) (results : List ℤ) : Prop where
  le : transferred results ≤ len
  short_iff : transferred results < len ↔ ∃ n ∈ results, n ≤ 0
  forGood : FailsForGood results

theorem pieceResults_spec (len : ℕ) (d : φ) : PieceResults len (pieceResults dev len d).1 := by
  induction len using Nat.strong_induction_on generalizing d with
  | _ len ih =>
      by_cases hlen : len = 0
      · rw [pieceResults, if_pos hlen]
        exact ⟨Nat.zero_le _, by simp [hlen], List.Pairwise.nil⟩
      · rw [pieceResults_of_ne_zero dev hlen]
        generalize hresult : min (dev d len).1 (len : ℤ) = n
        have hmin : n ≤ len := hresult ▸ min_le_right _ _
        by_cases hn : 0 < n
        · have hrest := ih (len - n.toNat) (by omega) (dev d len).2
          have hle := hrest.le
          rw [if_pos hn]
          refine ⟨?_, ?_, ?_⟩
          · rw [transferred_cons]
            omega
          · rw [List.exists_mem_cons_iff, ← hrest.short_iff, transferred_cons]
            omega
          · exact List.pairwise_cons.mpr ⟨fun m _ hle => absurd hn (not_lt.mpr hle), hrest.forGood⟩
        · have hnone : transferred [n] = 0 :=
            transferred_eq_zero_iff.mpr (List.forall_mem_singleton.mpr (not_lt.mp hn))
          rw [if_neg hn]
          refine ⟨?_, ?_, List.pairwise_singleton _ _⟩
          · rw [hnone]
            exact Nat.zero_le _
          · rw [hnone]
            exact iff_of_true (Nat.pos_of_ne_zero hlen)
              ⟨n, List.mem_singleton_self n, not_lt.mp hn⟩

/-- Where every write transfers something, all of the piece goes through. -/
theorem transferred_pieceResults (hprogress : ∀ d len, 0 < len → 0 < (dev d len).1) (len : ℕ)
    (d : φ) : transferred (pieceResults dev len d).1 = len := by
  induction len using Nat.strong_induction_on generalizing d with
  | _ len ih =>
      by_cases hlen : len = 0
      · rw [pieceResults, if_pos hlen, hlen]
        rfl
      · have hn : 0 < min (dev d len).1 (len : ℤ) := by
          have hpos := hprogress d len (Nat.pos_of_ne_zero hlen)
          omega
        rw [pieceResults_of_ne_zero dev hlen, if_pos hn, transferred_cons, ih _ (by omega)]
        omega

/-- The writes of some pieces of the same length, one piece after the other. -/
def piecesResults (len : ℕ) : ℕ → φ → List (List ℤ) × φ
  | 0, d => ([], d)
  | pieces + 1, d =>
      let (rs, d) := pieceResults dev len d
      let (rss, d) := piecesResults len pieces d
      (rs :: rss, d)

theorem length_piecesResults (len pieces : ℕ) (d : φ) :
    (piecesResults dev len pieces d).1.length = pieces := by
  induction pieces generalizing d with
  | zero => rfl
  | succ pieces ih => simp only [piecesResults, List.length_cons, ih]

/-- What holds of the results of one piece holds of all. -/
theorem forall_piecesResults {P : List ℤ → Prop} {len : ℕ}
    (hP : ∀ d, P (pieceResults dev len d).1) (pieces : ℕ) (d : φ) :
    ∀ rs ∈ (piecesResults dev len pieces d).1, P rs := by
  induction pieces generalizing d with
  | zero => simp [piecesResults]
  | succ pieces ih => exact List.forall_mem_cons.mpr ⟨hP d, ih _⟩

section Rows

variable {β : Type*}

/-- The first so many elements of each row, one row after the other. -/
def rowHeads (rows : List (List β)) (ks : List ℕ) : List β :=
  (List.zipWith (fun row k => row.take k) rows ks).flatten

theorem rowHeads_cons (row : List β) (rows : List (List β)) (k : ℕ) (ks : List ℕ) :
    rowHeads (row :: rows) (k :: ks) = row.take k ++ rowHeads rows ks := rfl

theorem length_rowHeads {len : ℕ} {rows : List (List β)} {ks : List ℕ}
    (hlength : rows.length = ks.length) (hrows : ∀ row ∈ rows, row.length = len)
    (hks : ∀ k ∈ ks, k ≤ len) : (rowHeads rows ks).length = ks.sum := by
  induction rows generalizing ks with
  | nil => rw [List.eq_nil_of_length_eq_zero hlength.symm]; rfl
  | cons row rows ih =>
      cases ks with
      | nil => exact absurd hlength (by simp)
      | cons k ks =>
          obtain ⟨hrow, hrows⟩ := List.forall_mem_cons.mp hrows
          obtain ⟨hk, hks⟩ := List.forall_mem_cons.mp hks
          rw [rowHeads_cons, List.length_append, ih (Nat.succ.inj hlength) hrows hks,
            List.length_take_of_le (hrow ▸ hk), List.sum_cons]

/-- Rows of which nothing is taken once one was cut short give an initial part. -/
theorem rowHeads_of_pairwise {len : ℕ} {rows : List (List β)} {ks : List ℕ}
    (hlength : rows.length = ks.length) (hrows : ∀ row ∈ rows, row.length = len)
    (hks : ∀ k ∈ ks, k ≤ len) (hcut : ks.Pairwise fun k k' => k < len → k' = 0) :
    rowHeads rows ks = rows.flatten.take ks.sum := by
  induction rows generalizing ks with
  | nil => simp [rowHeads]
  | cons row rows ih =>
      cases ks with
      | nil => exact absurd hlength (by simp)
      | cons k ks =>
          obtain ⟨hrow, hrows⟩ := List.forall_mem_cons.mp hrows
          obtain ⟨hk, hks⟩ := List.forall_mem_cons.mp hks
          obtain ⟨hcut, hrest⟩ := List.pairwise_cons.mp hcut
          rw [rowHeads_cons, ih (Nat.succ.inj hlength) hrows hks hrest, List.flatten_cons,
            List.sum_cons]
          rcases hk.lt_or_eq with hlt | heq
          · have hzero : ks.sum = 0 := List.sum_eq_zero fun k' hk' => hcut k' hk' hlt
            rw [hzero, List.take_zero, List.append_nil, Nat.add_zero,
              List.take_append_of_le_length (hrow ▸ hk)]
          · have hfull : row.length = k := hrow.trans heq.symm
            rw [← hfull, List.take_length, List.take_length_add_append]

/-- Two lists are the same if they hold the same bytes whatever is stored where. -/
theorem eq_of_forall_map_eq {l l' : List β} (h : ∀ content : β → Byte, l.map content = l'.map content) :
    l = l' := by
  classical
  have hlength : l.length = l'.length := by
    simpa only [List.length_map] using congrArg List.length (h fun _ => 0)
  apply List.ext_getElem hlength
  intro i hi hi'
  have hmark := congrArg (fun bytes => bytes[i]?) (h fun x => if x = l[i] then 1 else 0)
  simp only [List.getElem?_map, List.getElem?_eq_getElem hi, List.getElem?_eq_getElem hi',
    Option.map_some, if_true, Option.some.injEq] at hmark
  by_contra hne
  rw [if_neg fun heq => hne heq.symm] at hmark
  exact absurd hmark (by decide)

end Rows

end Libdce.Foundation.PartialTransfers
