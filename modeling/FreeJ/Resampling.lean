import FreeJ.Cells
import FreeJ.Loops
import FreeJ.Ringbuffer

/-!
# Resampling Decoded Audio

The loop of `VideoLayer::feed` that resamples a chunk of decoded audio to the rate of the
screen. It calls `src_simple` until all but a frame of the chunk is used, and after each call
writes what was produced to `screen->audio`. The library decides how much it uses and produces
in a call; what it answers is an argument here, with the floats it produces as bytes.

One `offset`, in samples, says where a call reads and where it stores, and is taken off the
frames that there is room for; what is written is taken from the start of the buffer in every
round.

## Main results

* `rounds_state`: how far the loop is after some calls, and what they were given.
* `audio_contents`: what the calls wrote.
* `resampling_iff`: the loop ends and writes what was produced exactly when the calls use up
  the chunk, and those after the first that uses something produce nothing and have room.
-/

namespace FreeJ

open Ringbuffer Loops

/-- `SRC_DATA` before a call: the frames, and where in `audio_float_buf` and
`audio_resampled_buf` they are, in floats. -/
structure SrcData where
  input_frames : ℤ
  output_frames : ℤ
  data_in : ℕ
  data_out : ℕ

/-- `SRC_DATA` after a call. -/
structure SrcResult where
  input_frames_used : ℕ
  output_frames_gen : ℕ

/-- The loop, with the calls that were made and the warnings that were given. -/
structure Resampler (α : Type*) where
  samples : ℤ
  offset : ℕ
  audio_resampled_buf : Cells α
  audio : Ringbuffer α
  calls : List SrcData
  /-- "resampling left: %i < %i" -/
  warnings : List (ℕ × ℤ)

/-- What a call is given. The length of `audio_resampled_buf` is in floats. -/
def srcData (audio_channels audio_resampled_buf_len : ℕ) (samples : ℤ) (offset : ℕ) :
    SrcData where
  input_frames := samples.tdiv audio_channels
  output_frames := ((audio_resampled_buf_len / audio_channels : ℕ) : ℤ) - offset
  data_in := offset
  data_out := offset

/-- The ranges are inside `audio_float_buf`, of 192000 floats for each channel, and
`audio_resampled_buf`. -/
structure SrcData.Inside (audio_channels audio_resampled_buf_len : ℕ) (d : SrcData) : Prop where
  input : 0 ≤ d.input_frames ∧ d.data_in + d.input_frames * audio_channels ≤
    audio_channels * 192000
  output : 0 ≤ d.output_frames ∧ d.data_out + d.output_frames * audio_channels ≤
    audio_resampled_buf_len

/-- What `src_simple` promises: it uses what it is given at the most, and produces no more than
there is room for. -/
structure SrcData.Respects (d : SrcData) (r : SrcResult) : Prop where
  used : r.input_frames_used ≤ d.input_frames
  gen : 0 ≤ d.output_frames → r.output_frames_gen ≤ d.output_frames

namespace Resampler

section Loop

variable {α : Type*} (audio_channels audio_resampled_buf_len : ℕ)

/-- The body of the loop, where `src_simple` answers `r` and stores the bytes `out`. -/
def round (r : SrcResult) (out : List α) (s : Resampler α) : Resampler α :=
  let d := srcData audio_channels audio_resampled_buf_len s.samples s.offset
  let buf := s.audio_resampled_buf.write (4 * d.data_out) out
  let samples := s.samples - r.input_frames_used * audio_channels
  { samples := samples
    offset := s.offset + r.input_frames_used * audio_channels
    audio_resampled_buf := buf
    audio :=
      (s.audio.ringbuffer_write (buf.take (r.output_frames_gen * audio_channels * 4))).1
    calls := s.calls ++ [d]
    warnings :=
      if samples > 0 then
        s.warnings ++ [(r.input_frames_used, samples.tdiv audio_channels)]
      else s.warnings }

/-- The loop before its first round, for a chunk of `n` frames. -/
def start (n : ℕ) (buf : Cells α) (audio : Ringbuffer α) : Resampler α where
  samples := n * audio_channels
  offset := 0
  audio_resampled_buf := buf
  audio := audio
  calls := []
  warnings := []

/-- The loop, for `fuel` rounds at the most. -/
def resample (res : ℕ → SrcResult) (out : ℕ → List α) (fuel : ℕ) (s : Resampler α) :
    Option (Resampler α) :=
  doWhile (fun k => round audio_channels audio_resampled_buf_len (res k) (out k))
    (fun s => s.samples > audio_channels) fuel 0 s

end Loop

/-- The frames used by the calls before call `k`. -/
def usedBefore (res : ℕ → SrcResult) : ℕ → ℕ
  | 0 => 0
  | k + 1 => usedBefore res k + (res k).input_frames_used

/-- Call `k` is made: it is the first one, or more than a frame of `n` is left. -/
def Called (n : ℕ) (res : ℕ → SrcResult) (k : ℕ) : Prop :=
  k = 0 ∨ usedBefore res k + 1 < n

/-! ### After some rounds -/

variable {α : Type*} {C len n : ℕ} {res : ℕ → SrcResult} {out : ℕ → List α} {buf : Cells α}
  {audio : Ringbuffer α}

/-- The state after `k` rounds. -/
def after (C len n : ℕ) (res : ℕ → SrcResult) (out : ℕ → List α) (buf : Cells α)
    (audio : Ringbuffer α) (k : ℕ) : Resampler α :=
  rounds (fun k => round C len (res k) (out k)) (start C n buf audio) k

/-- **How far the loop is**, and what the calls were given. -/
theorem after_state (k : ℕ) :
    (after C len n res out buf audio k).samples = n * C - usedBefore res k * C ∧
      (after C len n res out buf audio k).offset = usedBefore res k * C ∧
      (after C len n res out buf audio k).calls = (List.range k).map fun j =>
        srcData C len (n * C - usedBefore res j * C) (usedBefore res j * C) := by
  induction k with
  | zero =>
      refine ⟨?_, (Nat.zero_mul C).symm, rfl⟩
      rw [usedBefore, Int.natCast_zero, Int.zero_mul, Int.sub_zero]
      rfl
  | succ k ih =>
      obtain ⟨hsamples, hoffset, hcalls⟩ := ih
      refine ⟨?_, ?_, ?_⟩
      · change (after C len n res out buf audio k).samples - (res k).input_frames_used * C = _
        rw [hsamples, usedBefore, Int.natCast_add, Int.add_mul, Int.sub_sub]
      · change (after C len n res out buf audio k).offset + (res k).input_frames_used * C = _
        rw [hoffset, usedBefore, Nat.add_mul]
      · change (after C len n res out buf audio k).calls ++
          [srcData C len (after C len n res out buf audio k).samples
            (after C len n res out buf audio k).offset] = _
        rw [hsamples, hoffset, hcalls, List.range_succ, List.map_append, List.map_singleton]

/-- Where a call stores what it produces. -/
theorem after_buf (k : ℕ) : (after C len n res out buf audio (k + 1)).audio_resampled_buf =
    (after C len n res out buf audio k).audio_resampled_buf.write
      (4 * (usedBefore res k * C : ℕ)) (out k) := by
  rw [← (after_state k).2.1]
  rfl

/-- What call `k` writes to the ring. -/
def written (C len n : ℕ) (res : ℕ → SrcResult) (out : ℕ → List α) (buf : Cells α)
    (audio : Ringbuffer α) (k : ℕ) : List α :=
  (after C len n res out buf audio (k + 1)).audio_resampled_buf.take
    ((res k).output_frames_gen * C * 4)

theorem length_written (k : ℕ) : (written C len n res out buf audio k).length =
    (res k).output_frames_gen * C * 4 :=
  Cells.length_take _ _

/-- The lengths of what is produced: a float for each channel of a frame. -/
def Produced (C : ℕ) (res : ℕ → SrcResult) (out : ℕ → List α) : Prop :=
  ∀ k, (out k).length = (res k).output_frames_gen * C * 4

/-- As much is written as is produced. -/
theorem length_flatten_written (hout : Produced C res out) (k : ℕ) :
    ((List.range k).map (written C len n res out buf audio)).flatten.length =
      ((List.range k).map out).flatten.length := by
  induction k with
  | zero => rfl
  | succ k ih =>
      simp only [List.range_succ, List.map_append, List.flatten_append, List.length_append,
        List.map_singleton, List.flatten_singleton, ih, length_written, hout k]

/-- **What the calls wrote**, where there is room for it. -/
theorem audio_contents (hout : Produced C res out) {k : ℕ}
    (hroom : ((List.range k).map out).flatten.length ≤ audio.ringbuffer_write_space) :
    (after C len n res out buf audio k).audio.contents = audio.contents ++
        ((List.range k).map (written C len n res out buf audio)).flatten ∧
      (after C len n res out buf audio k).audio.size = audio.size := by
  induction k with
  | zero => exact ⟨(List.append_nil _).symm, rfl⟩
  | succ k ih =>
      have hlength : ((List.range (k + 1)).map out).flatten.length =
          ((List.range k).map out).flatten.length + (out k).length := by
        rw [List.range_succ, List.map_append, List.flatten_append, List.length_append,
          List.map_singleton, List.flatten_singleton]
      obtain ⟨hcontents, hsize⟩ := ih (by omega)
      obtain ⟨hcount, hwrite, hsize'⟩ :=
        (after C len n res out buf audio k).audio.ringbuffer_write_contents
          (written C len n res out buf audio k)
      have hspace := audio.write_space_add_read_space
      have hspace' := (after C len n res out buf audio k).audio.write_space_add_read_space
      have hwaiting := congrArg List.length hcontents
      rw [List.length_append, length_flatten_written hout, length_contents, length_contents]
        at hwaiting
      have hsame : (written C len n res out buf audio k).length = (out k).length := by
        rw [length_written, hout k]
      rw [hcount, List.take_of_length_le (by omega)] at hwrite
      refine ⟨?_, hsize'.trans hsize⟩
      rw [List.range_succ, List.map_append, List.flatten_append, List.map_singleton,
        List.flatten_singleton, ← List.append_assoc, ← hcontents]
      exact hwrite

/-! ### The end of the loop -/

theorem usedBefore_mono {j k : ℕ} (hjk : j ≤ k) : usedBefore res j ≤ usedBefore res k := by
  induction hjk with
  | refl => exact Nat.le_refl _
  | step _ ih => exact ih.trans (Nat.le_add_right _ _)

/-- Another round is made while more than a frame is left. -/
theorem again_iff (hC : 1 ≤ C) (k : ℕ) :
    (after C len n res out buf audio k).samples > C ↔ usedBefore res k + 1 < n := by
  have hleft : (n * C - usedBefore res k * C : ℤ) > C ↔ (usedBefore res k + 1) * C < n * C := by
    rw [Nat.add_mul, Nat.one_mul, ← Int.natCast_mul, ← Int.natCast_mul]
    omega
  rw [(after_state k).1, hleft]
  exact Nat.mul_lt_mul_right (by omega)

/-- The loop ends after `k` rounds. -/
def EndsAfter (n : ℕ) (res : ℕ → SrcResult) (k : ℕ) : Prop :=
  0 < k ∧ ¬ usedBefore res k + 1 < n ∧ ∀ j, 0 < j → j < k → usedBefore res j + 1 < n

theorem resample_iff (hC : 1 ≤ C) {t : Resampler α} :
    (∃ fuel, resample C len res out fuel (start C n buf audio) = some t) ↔
      ∃ k, EndsAfter n res k ∧ t = after C len n res out buf audio k := by
  refine doWhile_ends_iff.trans (exists_congr fun k => ?_)
  constructor
  · rintro ⟨hpos, rfl, hstop, hgo⟩
    exact ⟨⟨hpos, fun h => hstop ((again_iff hC k).mpr h),
      fun j h1 h2 => (again_iff hC j).mp (hgo j h1 h2)⟩, rfl⟩
  · rintro ⟨⟨hpos, hstop, hgo⟩, rfl⟩
    exact ⟨hpos, rfl, fun h => hstop ((again_iff hC k).mp h),
      fun j h1 h2 => (again_iff hC j).mpr (hgo j h1 h2)⟩

/-- The calls that are made are those before the end. -/
theorem EndsAfter.called_iff {k j : ℕ} (h : EndsAfter n res k) : Called n res j ↔ j < k := by
  constructor
  · rintro (rfl | hj)
    · exact h.1
    · by_contra hle
      have hmono : usedBefore res k ≤ usedBefore res j := usedBefore_mono (Nat.le_of_not_lt hle)
      exact h.2.1 (by omega)
  · intro hj
    by_cases hz : j = 0
    · exact Or.inl hz
    · exact Or.inr (h.2.2 j (by omega) hj)

theorem EndsAfter.unique {k k' : ℕ} (h : EndsAfter n res k) (h' : EndsAfter n res k') :
    k = k' := by
  have h1 := h.called_iff (j := k')
  have h2 := h'.called_iff (j := k)
  rw [h'.called_iff] at h1
  rw [h.called_iff] at h2
  omega

/-- The loop ends when the calls use up all but a frame. -/
theorem exists_endsAfter {k : ℕ} (hpos : 0 < k) (hk : n ≤ usedBefore res k + 1) :
    ∃ j, EndsAfter n res j := by
  induction k using Nat.strongRecOn with
  | ind k ih =>
      by_cases hfirst : ∃ j, 0 < j ∧ j < k ∧ n ≤ usedBefore res j + 1
      · obtain ⟨j, h1, h2, h3⟩ := hfirst
        exact ih j h2 h1 h3
      · push Not at hfirst
        exact ⟨k, hpos, by omega, fun j h1 h2 => hfirst j h1 h2⟩

/-! ### What is written -/

/-- The ring is large enough for all that is produced, if the loop ends. -/
def RingFits (C len n : ℕ) (res : ℕ → SrcResult) (out : ℕ → List α) (buf : Cells α)
    (audio : Ringbuffer α) : Prop :=
  ∀ fuel t, resample C len res out fuel (start C n buf audio) = some t →
    ((List.range t.calls.length).map out).flatten.length ≤ audio.ringbuffer_write_space

/-- The loop ends, has written what the calls produced, one after the other, and passed ranges
inside the buffers. -/
def Right (C len n : ℕ) (res : ℕ → SrcResult) (out : ℕ → List α) (buf : Cells α)
    (audio : Ringbuffer α) : Prop :=
  ∃ fuel t, resample C len res out fuel (start C n buf audio) = some t ∧
    t.audio.contents = audio.contents ++ ((List.range t.calls.length).map out).flatten ∧
    ∀ d ∈ t.calls, d.Inside C len

theorem length_calls (k : ℕ) : (after C len n res out buf audio k).calls.length = k := by
  rw [(after_state k).2.2, List.length_map, List.length_range]

/-- Lists of lists with equal lengths are equal when what they make together is. -/
theorem flatten_range_map_inj {f g : ℕ → List α} (hlength : ∀ j, (f j).length = (g j).length)
    {k : ℕ} : ((List.range k).map f).flatten = ((List.range k).map g).flatten ↔
      ∀ j < k, f j = g j := by
  induction k with
  | zero => simp
  | succ k ih =>
      simp only [List.range_succ, List.map_append, List.flatten_append, List.map_singleton,
        List.flatten_singleton]
      constructor
      · intro h j hj
        obtain ⟨hinit, hlast⟩ := List.append_inj' h (hlength k)
        by_cases hjk : j = k
        · rwa [hjk]
        · exact ih.mp hinit j (by omega)
      · intro h
        rw [ih.mpr fun j hj => h j (by omega), h k (by omega)]

/-- For a loop that ends. -/
theorem EndsAfter.right_iff {k : ℕ} (h : EndsAfter n res k) (hC : 1 ≤ C)
    (hout : Produced C res out)
    (hroom : ((List.range k).map out).flatten.length ≤ audio.ringbuffer_write_space) :
    Right C len n res out buf audio ↔ (∀ j < k, written C len n res out buf audio j = out j) ∧
      ∀ j < k, (srcData C len (n * C - usedBefore res j * C) (usedBefore res j * C)).Inside
        C len := by
  have hlength : ∀ j, (written C len n res out buf audio j).length = (out j).length :=
    fun j => (length_written j).trans (hout j).symm
  have hcalls : (∀ d ∈ (after C len n res out buf audio k).calls, d.Inside C len) ↔
      ∀ j < k, (srcData C len (n * C - usedBefore res j * C) (usedBefore res j * C)).Inside
        C len := by
    rw [(after_state k).2.2]
    simp
  rw [← flatten_range_map_inj hlength, ← hcalls]
  constructor
  · rintro ⟨fuel, t, ht, hcontents, hin⟩
    obtain ⟨k', hk', rfl⟩ := (resample_iff hC).mp ⟨fuel, ht⟩
    obtain rfl := hk'.unique h
    rw [length_calls, (audio_contents hout hroom).1, List.append_cancel_left_eq] at hcontents
    exact ⟨hcontents, hin⟩
  · rintro ⟨hcontents, hin⟩
    obtain ⟨fuel, ht⟩ : ∃ fuel, resample C len res out fuel (start C n buf audio) =
        some (after C len n res out buf audio k) := (resample_iff hC).mpr ⟨k, h, rfl⟩
    refine ⟨fuel, _, ht, ?_, hin⟩
    rw [length_calls, (audio_contents hout hroom).1, hcontents]

/-- Where nothing was used yet, or nothing is produced, a call's floats are what is written. -/
theorem written_eq (hout : Produced C res out) {k : ℕ}
    (hk : usedBefore res k = 0 ∨ (res k).output_frames_gen = 0) :
    written C len n res out buf audio k = out k := by
  rcases hk with hk | hk
  · rw [written, after_buf, hk, Nat.zero_mul, Int.natCast_zero, Int.mul_zero,
      Cells.write_holds.take_eq (hout k).ge, List.take_of_length_le (hout k).le]
  · have hlength := hout k
    have hwritten : (written C len n res out buf audio k).length = _ := length_written k
    rw [hk, Nat.zero_mul, Nat.zero_mul] at hlength hwritten
    rw [List.length_eq_zero_iff.mp hlength, List.length_eq_zero_iff.mp hwritten]

/-- Zeros are produced, but in call `k`. -/
def marked (C : ℕ) (res : ℕ → SrcResult) (k j : ℕ) : List UInt8 :=
  List.replicate ((res j).output_frames_gen * C * 4) (if j = k then 1 else 0)

theorem produced_marked (k : ℕ) : Produced C res (marked C res k) := fun _ =>
  List.length_replicate

/-- Before call `k` the buffer has zeros only, if it had before. -/
theorem cell_marked {ring : Ringbuffer UInt8} {j k : ℕ} (hjk : j ≤ k) (i : ℤ) :
    (after C len n res (marked C res k) ⟨fun _ => 0, []⟩ ring j).audio_resampled_buf.cell i =
      0 := by
  induction j with
  | zero => rfl
  | succ j ih =>
      have hzeros : marked C res k j = List.replicate ((res j).output_frames_gen * C * 4) 0 := by
        rw [marked, if_neg (by omega)]
      rw [after_buf, hzeros]
      by_cases hin : 4 * ((usedBefore res j * C : ℕ) : ℤ) ≤ i ∧
          i < 4 * ((usedBefore res j * C : ℕ) : ℤ) +
            (List.replicate ((res j).output_frames_gen * C * 4) (0 : UInt8)).length
      · exact List.eq_of_mem_replicate (Cells.write_holds.mem hin.1 hin.2)
      · rw [Cells.write_cell_of_notMem (by omega)]
        exact ih (by omega)

/-- A call that produces something after something was used: what is written begins with what
was in the buffer before. -/
theorem written_marked (hC : 1 ≤ C) {ring : Ringbuffer UInt8} {k : ℕ}
    (hused : usedBefore res k ≠ 0) (hgen : (res k).output_frames_gen ≠ 0) :
    written C len n res (marked C res k) ⟨fun _ => 0, []⟩ ring k ≠ marked C res k k := by
  intro heq
  have hpos : 0 < (res k).output_frames_gen * C * 4 :=
    Nat.mul_pos (Nat.mul_pos (by omega) hC) (by omega)
  have hoffset : 0 < usedBefore res k * C := Nat.mul_pos (by omega) hC
  have hfirst := congrArg (fun l => l[0]?) heq
  have hcell : (after C len n res (marked C res k) ⟨fun _ => 0, []⟩ ring
      (k + 1)).audio_resampled_buf.cell 0 = 0 := by
    rw [after_buf, Cells.write_cell_of_notMem (by omega)]
    exact cell_marked (Nat.le_refl k) 0
  simp only [written, Cells.getElem?_take, if_pos hpos, marked, List.getElem?_replicate,
    if_true] at hfirst
  rw [Int.natCast_zero, hcell] at hfirst
  exact absurd hfirst (by decide)

/-- There is a ring with room for any number of bytes. -/
theorem exists_room (m : ℕ) : ∃ ring : Ringbuffer UInt8, m ≤ ring.ringbuffer_write_space := by
  refine ⟨ringbuffer_create (m + 1) fun _ => 0, ?_⟩
  have hsize := le_size_create (m + 1) fun _ => (0 : UInt8)
  have hspace := (ringbuffer_create (m + 1) fun _ => (0 : UInt8)).write_space_add_read_space
  rw [read_space_create] at hspace
  omega

/-- The ranges of a call are inside exactly if the chunk is not too long, and there are frames
left to produce. -/
theorem inside_iff (hC : 1 ≤ C) {u : ℕ} (hu : u ≤ n) :
    (srcData C len (n * C - u * C) (u * C)).Inside C len ↔ n ≤ 192000 ∧ u * C ≤ len / C := by
  have hinput : ((n * C - u * C : ℤ)).tdiv C = n - u := by
    rw [← Int.sub_mul, Int.mul_tdiv_cancel _ (by omega)]
  have hsum : ((u * C : ℕ) : ℤ) + (n - u) * C = n * C := by
    rw [Int.sub_mul, Int.natCast_mul]
    omega
  have hfloats : (n * C : ℤ) ≤ C * 192000 ↔ n ≤ 192000 := by
    rw [Int.mul_comm, ← Int.natCast_mul]
    constructor
    · intro h
      have h : C * n ≤ C * 192000 := by omega
      exact Nat.le_of_mul_le_mul_left h hC
    · intro h
      have h := Nat.mul_le_mul_left C h
      omega
  have hwhole : (((len / C : ℕ) : ℤ)) * C ≤ len := by
    exact_mod_cast Nat.div_mul_le_self len C
  have hscaled : ((u * C : ℕ) : ℤ) ≤ ((u * C : ℕ) : ℤ) * C := by
    exact_mod_cast Nat.le_mul_of_pos_right (u * C) hC
  constructor
  · rintro ⟨⟨-, hin⟩, ⟨hout, -⟩⟩
    simp only [srcData, hinput, hsum] at hin hout
    exact ⟨hfloats.mp hin, by omega⟩
  · rintro ⟨hn, hfit⟩
    refine ⟨⟨?_, ?_⟩, ?_, ?_⟩ <;> simp only [srcData, hinput]
    · omega
    · rw [hsum]
      exact hfloats.mpr hn
    · omega
    · rw [Int.sub_mul]
      omega

/-- Room for what is produced until the end. -/
theorem EndsAfter.ringFits {k : ℕ} (h : EndsAfter n res k) (hC : 1 ≤ C)
    (hroom : ((List.range k).map out).flatten.length ≤ audio.ringbuffer_write_space) :
    RingFits C len n res out buf audio := by
  intro fuel t ht
  obtain ⟨k', hk', rfl⟩ := (resample_iff hC).mp ⟨fuel, ht⟩
  rw [length_calls, hk'.unique h]
  exact hroom

/-- A loop that is right whatever is produced ends. -/
theorem exists_endsAfter_of_right (hC : 1 ≤ C)
    (hall : ∀ (out : ℕ → List UInt8) (buf : Cells UInt8) (audio : Ringbuffer UInt8),
      Produced C res out → RingFits C len n res out buf audio →
        Right C len n res out buf audio) : ∃ k, EndsAfter n res k := by
  by_contra hnever
  -- a ring is large enough for a loop that never ends
  have hring : RingFits C len n res (marked C res 0) ⟨fun _ => 0, []⟩
      (ringbuffer_create 1 fun _ => 0) := by
    intro fuel t ht
    obtain ⟨k, hk, -⟩ := (resample_iff hC).mp ⟨fuel, ht⟩
    exact absurd ⟨k, hk⟩ hnever
  obtain ⟨fuel, t, ht, -⟩ := hall _ _ _ (produced_marked 0) hring
  obtain ⟨k, hk, -⟩ := (resample_iff hC).mp ⟨fuel, ht⟩
  exact hnever ⟨k, hk⟩

/-- **The loop ends and writes what was produced** exactly when the calls use up the chunk; it
is not too long for `audio_float_buf`; and a call after some frames were used produces nothing,
and is not short of room for the number of samples, in place of frames, that were used. -/
theorem resampling_iff (hC : 1 ≤ C) :
    (∀ (out : ℕ → List UInt8) (buf : Cells UInt8) (audio : Ringbuffer UInt8),
        Produced C res out → RingFits C len n res out buf audio →
          Right C len n res out buf audio) ↔
      (∃ k, 0 < k ∧ n ≤ usedBefore res k + 1) ∧ n ≤ 192000 ∧
        ∀ k, Called n res k → (usedBefore res k = 0 ∨ (res k).output_frames_gen = 0) ∧
          usedBefore res k * C ≤ len / C := by
  have hleft : ∀ k, Called n res k → usedBefore res k ≤ n := by
    rintro k (rfl | hk)
    · exact Nat.zero_le n
    · omega
  constructor
  · intro hall
    obtain ⟨k, hk⟩ := exists_endsAfter_of_right hC hall
    have hright : ∀ j, (∀ i < k, ∃ ring, written C len n res (marked C res j) ⟨fun _ => 0, []⟩
        ring i = marked C res j i) ∧ ∀ i < k, (srcData C len (n * C - usedBefore res i * C)
          (usedBefore res i * C)).Inside C len := by
      intro j
      obtain ⟨ring, hroom⟩ := exists_room ((List.range k).map (marked C res j)).flatten.length
      obtain ⟨hwritten, hin⟩ := (hk.right_iff hC (produced_marked j) hroom).mp
        (hall _ ⟨fun _ => 0, []⟩ _ (produced_marked j) (hk.ringFits hC hroom))
      exact ⟨fun i hi => ⟨ring, hwritten i hi⟩, hin⟩
    have hfirst := (inside_iff hC (Nat.zero_le n)).mp ((hright 0).2 0 hk.1)
    refine ⟨⟨k, hk.1, by have := hk.2.1; omega⟩, hfirst.1, fun j hj => ⟨?_, ?_⟩⟩
    · by_contra hnot
      push Not at hnot
      obtain ⟨ring, hwritten⟩ := (hright j).1 j (hk.called_iff.mp hj)
      exact written_marked hC hnot.1 hnot.2 hwritten
    · exact ((inside_iff hC (hleft j hj)).mp ((hright 0).2 j (hk.called_iff.mp hj))).2
  · rintro ⟨⟨m, hpos, hm⟩, hn, hcalls⟩ out buf audio hout hring
    obtain ⟨k, hk⟩ := exists_endsAfter hpos hm
    obtain ⟨fuel, ht⟩ : ∃ fuel, resample C len res out fuel (start C n buf audio) =
        some (after C len n res out buf audio k) := (resample_iff hC).mpr ⟨k, hk, rfl⟩
    have hroom := hring fuel _ ht
    rw [length_calls] at hroom
    refine (hk.right_iff hC hout hroom).mpr ⟨fun j hj => ?_, fun j hj => ?_⟩
    · exact written_eq hout (hcalls j (hk.called_iff.mpr hj)).1
    · have hj := hk.called_iff.mpr hj
      exact (inside_iff hC (hleft j hj)).mpr ⟨hn, (hcalls j hj).2⟩

/-- A chunk of three stereo frames that the first call uses up. -/
theorem resampling_iff_once :
    (∀ (out : ℕ → List UInt8) (buf : Cells UInt8) (audio : Ringbuffer UInt8),
        Produced 2 (fun _ => ⟨3, 5⟩) out → RingFits 2 1000 3 (fun _ => ⟨3, 5⟩) out buf audio →
          Right 2 1000 3 (fun _ => ⟨3, 5⟩) out buf audio) ↔
      (∃ k, 0 < k ∧ 3 ≤ usedBefore (fun _ => ⟨3, 5⟩) k + 1) ∧ 3 ≤ 192000 ∧
        ∀ k, Called 3 (fun _ => ⟨3, 5⟩) k →
          (usedBefore (fun _ => ⟨3, 5⟩) k = 0 ∨ (SrcResult.mk 3 5).output_frames_gen = 0) ∧
            usedBefore (fun _ => ⟨3, 5⟩) k * 2 ≤ 1000 / 2 :=
  resampling_iff (by omega)

/-- Three frames in two calls that each produce a frame: the first one is written twice, and
the second one never. -/
theorem resampling_repeats : ¬ ∀ (C len n : ℕ) (res : ℕ → SrcResult), 1 ≤ C →
    (∀ k, Called n res k →
      (srcData C len (n * C - usedBefore res k * C) (usedBefore res k * C)).Respects (res k)) →
    ∀ (out : ℕ → List UInt8) (buf : Cells UInt8) (audio : Ringbuffer UInt8),
      Produced C res out → RingFits C len n res out buf audio →
        Right C len n res out buf audio := by
  intro hall
  let res : ℕ → SrcResult := fun k => if k = 0 then ⟨1, 1⟩ else ⟨2, 1⟩
  have hend : EndsAfter 3 res 2 := by
    refine ⟨by omega, by decide, fun j h1 h2 => ?_⟩
    obtain rfl : j = 1 := by omega
    decide
  have hrespects : ∀ k, Called 3 res k →
      (srcData 1 100 (3 * 1 - usedBefore res k * 1) (usedBefore res k * 1)).Respects (res k) := by
    intro k hk
    have hlt := hend.called_iff.mp hk
    obtain rfl | rfl : k = 0 ∨ k = 1 := by omega
    · exact ⟨by decide, fun _ => by decide⟩
    · exact ⟨by decide, fun _ => by decide⟩
  obtain ⟨ring, hroom⟩ := exists_room ((List.range 2).map (marked 1 res 1)).flatten.length
  have hright := hall 1 100 3 res (by omega) hrespects _ ⟨fun _ => 0, []⟩ ring
    (produced_marked 1) (hend.ringFits (by omega) hroom)
  have hwritten := ((hend.right_iff (by omega) (produced_marked 1) hroom).mp hright).1 1 (by omega)
  exact written_marked (by omega) (by decide) (by decide) hwritten

end Resampler

end FreeJ
