import Libdce.Sample.Transcoding

/-!
# What the codec is fed

The loop passes the input files to the codec one by one, and ends the stream with a call
without input. How many files there are bounds how often it turns, whatever the codec does.

## Implementation notes

The codec is made to keep account of the input of every call. The loop may be left before
the end of the stream: after an error of the codec, or when it holds all buffers.
-/

namespace Libdce.Sample

open Foundation.Bytes Foundation.PartialTransfers

variable {κ φ : Type*}

/-- A codec that keeps account of what it is given. -/
def Setting.spied (set : Setting κ φ) : Setting (κ × List (ℤ × List Byte)) φ :=
  { set with
    process := fun call ram (codec, seen) =>
      let frame := if call.numBufs ≠ 0 then ram.field set.input call.numBytes.toNat else []
      let (answer, ram, codec) := set.process call ram codec
      (answer, ram, codec, seen ++ [(call.numBufs, frame)]) }

/-- The frames before some number one by one, and a call without input. -/
def feed (frames : ℕ → List Byte) (k : ℕ) : List (ℤ × List Byte) :=
  (List.range k).map (fun i => (1, frames i)) ++ [(0, [])]

variable {set : Setting κ φ} {frames : ℕ → List Byte} {k m : ℕ}
  {t : Transcoder (κ × List (ℤ × List Byte))}

/-- After some turns the loop goes on and the codec has been given as many frames, or it
is over. -/
def Fed (frames : ℕ → List Byte) (k m : ℕ) (t : Transcoder (κ × List (ℤ × List Byte))) : Prop :=
  (t.decoder.state = .looping ∧ t.decoder.numBufs = 1 ∧ t.decoder.inCnt = m ∧ m ≤ k ∧
      t.codec.2 = (List.range m).map fun i => (1, frames i)) ∨
    (¬t.decoder.Loops ∧ t.codec.2 <+: feed frames k ∧
      (t.decoder.state = .looping → t.codec.2 = feed frames k))

theorem range_map_prefix_feed (hm : m ≤ k) :
    ((List.range m).map fun i => ((1 : ℤ), frames i)) <+: feed frames k := by
  have hrange : List.range m <+: List.range k := by
    rw [← min_eq_left hm, ← List.take_range]
    exact List.take_prefix _ _
  exact (hrange.map _).trans (List.prefix_append _ _)

/-- What the codec is given in a turn. -/
theorem spied_seen (set : Setting κ φ) (call : ProcessCall) (ram : Buffer)
    (codec : κ × List (ℤ × List Byte)) :
    (set.spied.process call ram codec).2.2.2 = codec.2 ++ [(call.numBufs,
      if call.numBufs ≠ 0 then ram.field set.input call.numBytes.toNat else [])] := rfl

theorem Decoder.calling_frame (d : Decoder) {frame : List Byte} (hframe : frame ≠ []) :
    (d.calling frame.length).numBufs = d.numBufs ∧
      (d.calling frame.length).numBytes = frame.length ∧
      (d.calling frame.length).inCnt = d.inCnt + 1 := by
  have hlength : (frame.length : ℤ) ≠ 0 := by
    rwa [Ne, Int.natCast_eq_zero, List.length_eq_zero_iff]
  rw [Decoder.calling, Decoder.process, if_pos hlength]
  exact ⟨rfl, rfl, rfl⟩

/-- A frame is given as it is in its file. -/
theorem Fed.turn_frame (hm : m < k) (hframe : frames m ≠ []) (hcount : t.decoder.inCnt = m)
    (hnumBufs : t.decoder.numBufs = 1) (hbuf : t.decoder.handed ≠ 0)
    (hseen : t.codec.2 = (List.range m).map fun i => (1, frames i)) :
    Fed frames k (m + 1) (t.turn set.spied frames) := by
  obtain ⟨hnum, hbytes, hcnt⟩ := t.decoder.calling_frame hframe
  rw [Transcoder.turn, if_neg hbuf]
  simp only [hcount, Int.toNat_natCast]
  generalize t.decoder.calling (frames m).length = d at hnum hbytes hcnt ⊢
  have hgiven : (set.spied.process (d.call t.decoder.handed)
      (store t.ram set.spied.input (frames m)) t.codec).2.2.2 =
        (List.range (m + 1)).map fun i => (1, frames i) := by
    have hfield := field_store t.ram set.input (frames m)
    have hsent : (d.call t.decoder.handed).numBufs = 1 := hnum.trans hnumBufs
    rw [spied_seen, hseen, hsent, if_pos one_ne_zero, Decoder.call, hbytes, Int.toNat_natCast,
      List.range_succ, List.map_append]
    exact congrArg (fun frame => _ ++ [(1, frame)]) hfield
  generalize set.spied.process _ _ _ = answer at hgiven ⊢
  obtain ⟨hcodec, hnum', hcnt'⟩ := t.answered_keeps set.spied d answer
  by_cases hstate : (t.answered set.spied d answer).decoder.state = .looping
  · refine Or.inl ⟨hstate, hnum'.trans (hnum.trans hnumBufs), ?_, hm, ?_⟩
    · rw [hcnt', hcnt, hcount, Nat.cast_succ]
    · rw [hcodec, hgiven]
  · refine Or.inr ⟨fun hloops => hstate hloops.1, ?_, fun hstate' => absurd hstate' hstate⟩
    rw [hcodec, hgiven]
    exact range_map_prefix_feed hm

/-- At the end of the stream the codec is called once more, without input. -/
theorem Fed.turn_end (hframe : frames k = []) (hcount : t.decoder.inCnt = k)
    (hbuf : t.decoder.handed ≠ 0)
    (hseen : t.codec.2 = (List.range k).map fun i => (1, frames i)) :
    Fed frames k (k + 1) (t.turn set.spied frames) := by
  rw [Transcoder.turn, if_neg hbuf]
  simp only [hcount, Int.toNat_natCast, hframe, List.length_nil]
  have hnum : (t.decoder.calling 0).numBufs = 0 := rfl
  generalize t.decoder.calling 0 = d at hnum
  have hgiven : (set.spied.process (d.call t.decoder.handed)
      (store t.ram set.spied.input []) t.codec).2.2.2 = feed frames k := by
    have hsent : (d.call t.decoder.handed).numBufs = 0 := hnum
    rw [spied_seen, hseen, hsent]
    rfl
  generalize set.spied.process _ _ _ = answer at hgiven ⊢
  obtain ⟨hcodec, hnum', -⟩ := t.answered_keeps set.spied d answer
  refine Or.inr ⟨fun hloops => hloops.2 (hnum'.trans hnum), ?_, fun _ => ?_⟩
  · rw [hcodec, hgiven]
  · rw [hcodec, hgiven]

theorem Fed.turn (hempty : frames k = []) (hfull : ∀ i < k, frames i ≠ []) (h : Fed frames k m t)
    (hloops : t.decoder.Loops) : Fed frames k (m + 1) (t.turn set.spied frames) := by
  obtain ⟨hstate, hnumBufs, hcount, hm, hseen⟩ | ⟨hover, -⟩ := h
  · by_cases hbuf : t.decoder.handed = 0
    · -- no buffer is free
      rw [Transcoder.turn, if_pos hbuf]
      refine Or.inr ⟨fun hloops => LoopState.noConfusion hloops.1, ?_, fun h => LoopState.noConfusion h⟩
      rw [hseen]
      exact range_map_prefix_feed hm
    · obtain hlt | rfl := hm.lt_or_eq
      · exact turn_frame hlt (hfull m hlt) hcount hnumBufs hbuf hseen
      · exact turn_end hempty hcount hbuf hseen
  · exact absurd hloops hover

/-- Once the loop is over, turns do not count. -/
theorem Fed.over (h : Fed frames k m t) (hover : ¬t.decoder.Loops) (m' : ℕ) :
    Fed frames k m' t := by
  obtain ⟨hstate, hnumBufs, -⟩ | hover' := h
  · exact absurd ⟨hstate, hnumBufs.trans_ne one_ne_zero⟩ hover
  · exact Or.inr hover'

theorem Fed.play (hempty : frames k = []) (hfull : ∀ i < k, frames i ≠ []) (n : ℕ)
    (h : Fed frames k m t) : Fed frames k (m + n) (t.play set.spied frames n) := by
  induction n generalizing m t with
  | zero => exact h
  | succ n ih =>
      rw [Transcoder.play]
      by_cases hloops : t.decoder.Loops
      · rw [if_pos hloops, Nat.add_comm n 1, ← Nat.add_assoc]
        exact ih (h.turn hempty hfull hloops)
      · rw [if_neg hloops]
        exact h.over hloops _

theorem Fed.result (h : Fed frames k m t) : t.codec.2 <+: feed frames k ∧
    (k < m → ¬t.decoder.Loops) ∧
      (t.decoder.state = .looping → ¬t.decoder.Loops → t.codec.2 = feed frames k) := by
  obtain ⟨hstate, hnumBufs, -, hm, hseen⟩ | ⟨hover, hfront, hwhole⟩ := h
  · have hloops : t.decoder.Loops := ⟨hstate, hnumBufs.trans_ne one_ne_zero⟩
    refine ⟨?_, fun hlt => absurd hlt hm.not_gt, fun _ hover => absurd hloops hover⟩
    rw [hseen]
    exact range_map_prefix_feed hm
  · exact ⟨hfront, fun _ => hover, fun hstate _ => hwhole hstate⟩

end Libdce.Sample
