import FreeJ.AudioMux

/-!
# The Frames that are Mixed

What a call of `Mux` appends to `m_MixedRing`, for one and for two channels. With nothing in one
of the rings it is what it should be. With something in both, as many frames are written as
`audio_mix_ring` had; the samples of `first` beyond them have been read and are lost.

## Main results

* `mixedFrames_eq`: the samples of the frames that should be appended, one after the other.
* `Mux_contents`: what a call appends.
* `mux_mixes_iff`: every sample is mixed unless there are more samples than frames.
-/

namespace FreeJ

open Ringbuffer

namespace MuxCall

variable {R α : Type*} [NonUnitalNonAssocSemiring R] (c : FloatCodec R α) (channels : ℕ)
  (m_MixVal : R) {e : Mixer α}

/-- A sample with the sample of `first`, if there is one. -/
def mixSample (v : R) : Option R → R
  | none => v
  | some x => v + x * m_MixVal

/-- The frames that `vs`, and `xs` on each channel, make together: as many as the longer of the
two has. -/
def mixedFrames (xs vs : List R) : List R :=
  (List.range (max xs.length (vs.length / channels))).flatMap fun t =>
    (List.range channels).map fun ch => mixSample m_MixVal (vs.getD (t * channels + ch) 0) xs[t]?

variable {channels}

/-- Lists of one length, one for each number below `n`. -/
theorem flatMap_range_map {β : Type*} (f : ℕ → ℕ → β) (n : ℕ) :
    ((List.range n).flatMap fun t => (List.range channels).map (f t)) =
      (List.range (n * channels)).map fun i => f (i / channels) (i % channels) := by
  induction n with
  | zero => simp
  | succ n ih =>
      rw [List.range_succ, List.flatMap_append, ih, Nat.succ_mul, List.range_add,
        List.map_append, List.map_map, List.flatMap_singleton]
      congr 1
      refine List.map_congr_left fun ch hch => ?_
      have hlt : ch < channels := List.mem_range.mp hch
      rw [Function.comp_apply, Nat.mul_comm, Nat.mul_add_div (Nat.zero_lt_of_lt hlt),
        Nat.div_eq_of_lt hlt, Nat.mul_add_mod, Nat.mod_eq_of_lt hlt, Nat.add_zero]

/-- The samples of the mixed frames, one after the other. -/
theorem mixedFrames_eq (xs vs : List R) : mixedFrames channels m_MixVal xs vs =
    (List.range (max xs.length (vs.length / channels) * channels)).map fun i =>
      vs.getD i 0 + xs.getD (i / channels) 0 * m_MixVal := by
  rw [mixedFrames, flatMap_range_map fun t ch =>
    mixSample m_MixVal (vs.getD (t * channels + ch) 0) xs[t]?]
  refine List.map_congr_left fun i _ => ?_
  rw [Nat.div_add_mod' i channels, List.getD_eq_getElem?_getD (l := xs)]
  cases xs[i / channels]? with
  | none => rw [mixSample, Option.getD_none, zero_mul, add_zero]
  | some x => rfl

variable {m_MixVal c} {xs vs : List R}

/-- Words in a buffer that was cleared before: what follows them is zero. -/
theorem load_cleared {m : Cells α} {n k : ℕ} (hk : 4 * k + 4 ≤ n) :
    ((m.memset c.zero n).write 0 (c.bytes xs)).load c.toWordCodec k = xs.getD k 0 := by
  by_cases hlt : k < xs.length
  · rw [Cells.load_of_holds Cells.write_holds hlt, List.getD_eq_getElem xs 0 hlt]
  · rw [List.getD_eq_default xs 0 (by omega), ← c.decode_zero, Cells.load]
    congr 1
    funext b
    have hb := b.isLt
    rw [Cells.write_cell_of_notMem (by rw [c.length_bytes]; omega)]
    have hcell := Cells.memset_cell (m := m) (a := c.zero) (n := n) (k := 4 * k + b.val) (by omega)
    push_cast at hcell
    exact hcell

theorem load_first {k : ℕ} (hfirst : e.first.contents = c.bytes xs)
    (hk : 4 * k + 4 ≤ 4096 * 1024) :
    (loaded c e).m_MixBuffer.load c.toWordCodec k = xs.getD k 0 := by
  rw [← load_cleared (m := ⟨e.m_MixBuffer, []⟩) hk, ← hfirst]
  rfl

theorem load_video {k : ℕ} (hvideo : e.audio_mix_ring.contents = c.bytes vs)
    (hk : 4 * k + 4 ≤ 4096 * 1024 * 2) :
    (loaded c e).m_MixBufferOperation.load c.toWordCodec k = vs.getD k 0 := by
  rw [← load_cleared (m := ⟨e.m_MixBufferOperation, []⟩) hk, ← hvideo]
  rfl

theorem step_eq (hC : channels = 1 ∨ channels = 2) : step channels = channels := by
  rcases hC with rfl | rfl <;> rfl

/-- The words that the loop leaves. -/
theorem mix_take {n k : ℕ} (hC : channels = 1 ∨ channels = 2)
    (hfirst : e.first.contents = c.bytes xs) (hvideo : e.audio_mix_ring.contents = c.bytes vs)
    (hk : k ≤ channels * n) (hbuf : 4 * k ≤ 4096 * 1024 * channels) :
    ((loaded c e).mix c channels m_MixVal n 0 0).m_MixBufferOperation.take (4 * k) =
      c.bytes ((List.range k).map fun i => vs.getD i 0 + xs.getD (i / channels) 0 * m_MixVal) := by
  refine Cells.take_eq_bytes fun i hi => ?_
  have hword := (mix_start (s := loaded c e) c channels m_MixVal n).word i (by omega)
    (by rw [step_eq hC]; omega)
  have hindex : i / channels * channels ≤ i := Nat.div_mul_le_self i channels
  rwa [step_eq hC, ← Int.natCast_div, load_first hfirst (by rcases hC with rfl | rfl <;> omega),
    load_video hvideo (by rcases hC with rfl | rfl <;> omega)] at hword

/-- What is passed on as it is: the samples of the layers, with none of `first`. -/
theorem loaded_take (hvideo : e.audio_mix_ring.contents = c.bytes vs) :
    (loaded c e).m_MixBufferOperation.take (4 * vs.length) =
      c.bytes ((List.range vs.length).map fun i =>
        vs.getD i 0 + ([] : List R).getD (i / channels) 0 * m_MixVal) := by
  have hwords : ((List.range vs.length).map fun i =>
      vs.getD i 0 + ([] : List R).getD (i / channels) 0 * m_MixVal) = vs := by
    refine List.ext_getElem (by simp) fun i hi hi' => ?_
    rw [List.getElem_map, List.getElem_range, List.getD_nil, zero_mul, add_zero,
      List.getD_eq_getElem vs 0 hi']
  have hholds : (loaded c e).m_MixBufferOperation.Holds 0 (c.bytes vs) := by
    rw [← hvideo]
    exact Cells.write_holds
  rw [hwords, hholds.take_eq (by rw [c.length_bytes])]
  exact List.take_of_length_le (by rw [c.length_bytes])

/-- **What a call appends**: as many samples as `audio_mix_ring` has, or as many frames as
`first` has samples when there is nothing in `audio_mix_ring`. -/
theorem Mux_contents (hC : channels = 1 ∨ channels = 2)
    (hfirst : e.first.contents = c.bytes xs) (hvideo : e.audio_mix_ring.contents = c.bytes vs)
    (hxs : 4 * xs.length ≤ 4096 * 1024) (hvs : 4 * vs.length ≤ 4096 * 1024)
    (hroom₁ : 4 * (xs.length * channels) ≤ e.m_MixedRing.ringbuffer_write_space)
    (hroom₂ : 4 * vs.length ≤ e.m_MixedRing.ringbuffer_write_space) :
    (Mux c channels m_MixVal e).1.m_MixedRing.contents = e.m_MixedRing.contents ++
      c.bytes ((List.range (if vs = [] then xs.length * channels else vs.length)).map fun i =>
        vs.getD i 0 + xs.getD (i / channels) 0 * m_MixVal) := by
  have hF : e.first.ringbuffer_read_space = 4 * xs.length := by
    rw [← length_contents, hfirst, c.length_bytes]
  have hV : e.audio_mix_ring.ringbuffer_read_space = 4 * vs.length := by
    rw [← length_contents, hvideo, c.length_bytes]
  have hring : ∀ n, ((loaded c e).mix c channels m_MixVal n 0 0).m_MixedRing = e.m_MixedRing :=
    fun n => mix_ring n
  by_cases hx : xs = []
  · subst hx
    by_cases hv : vs = []
    · subst hv
      rw [Mux_none _ _ _ hF hV, if_pos rfl, List.length_nil, Nat.zero_mul]
      exact (List.append_nil _).symm
    · have hpos := List.length_pos_iff.mpr hv
      have hkeep : (loaded c e).m_MixedRing = e.m_MixedRing := rfl
      rw [Mux_video _ _ _ hF (by omega), if_pos (by omega), (sendMixed_spec _ _).1, hkeep, hV,
        if_neg hv, Nat.min_eq_left hroom₂, loaded_take hvideo]
  · have hxpos := List.length_pos_iff.mpr hx
    by_cases hv : vs = []
    · subst hv
      have hsize : xs.length ≤ xs.length * channels :=
        Nat.le_mul_of_pos_right _ (by omega)
      rw [Mux_first _ _ _ (by omega) hV]
      dsimp only
      rw [if_pos (by omega), (sendMixed_spec _ _).1, hring, hF, Nat.mul_assoc,
        Nat.min_eq_left hroom₁, Nat.mul_div_cancel_left _ (by omega), if_pos rfl,
        mix_take hC hfirst hvideo (Nat.mul_comm _ _).le ?_]
      rw [← Nat.mul_assoc]
      exact Nat.mul_le_mul_right channels hxs
    · have hvpos := List.length_pos_iff.mpr hv
      rw [Mux_both _ _ _ (by omega) (by omega)]
      dsimp only
      rw [if_pos (by omega), (sendMixed_spec _ _).1, hring, hV, Nat.min_eq_left hroom₂,
        Nat.mul_div_cancel_left _ (by omega), if_neg hv, mix_take hC hfirst hvideo ?_ ?_]
      · exact Nat.le_mul_of_pos_left _ (by omega)
      · exact hvs.trans (Nat.le_mul_of_pos_right _ (by omega))

/-- **Every sample is mixed exactly once** unless there is something in both rings, with more
samples in `first` than frames in `audio_mix_ring`: the samples left over are lost. -/
theorem mux_mixes_iff (hC : channels = 1 ∨ channels = 2)
    (hfirst : e.first.contents = c.bytes xs) (hvideo : e.audio_mix_ring.contents = c.bytes vs)
    (hframes : channels ∣ vs.length)
    (hxs : 4 * xs.length ≤ 4096 * 1024) (hvs : 4 * vs.length ≤ 4096 * 1024)
    (hroom : 4 * (max xs.length (vs.length / channels) * channels) ≤
      e.m_MixedRing.ringbuffer_write_space) :
    (Mux c channels m_MixVal e).1.m_MixedRing.contents =
        e.m_MixedRing.contents ++ c.bytes (mixedFrames channels m_MixVal xs vs) ↔
      xs = [] ∨ vs = [] ∨ xs.length ≤ vs.length / channels := by
  have hvideoFrames : vs.length / channels * channels = vs.length := Nat.div_mul_cancel hframes
  have hmax₁ := Nat.mul_le_mul_right channels (le_max_left xs.length (vs.length / channels))
  have hmax₂ := Nat.mul_le_mul_right channels (le_max_right xs.length (vs.length / channels))
  rw [Mux_contents hC hfirst hvideo hxs hvs (by omega) (by omega), mixedFrames_eq,
    List.append_cancel_left_eq]
  have hcount : (if vs = [] then xs.length * channels else vs.length) =
      max xs.length (vs.length / channels) * channels ↔
        xs = [] ∨ vs = [] ∨ xs.length ≤ vs.length / channels := by
    by_cases hv : vs = []
    · simp [hv]
    · rw [if_neg hv, ← hvideoFrames, Nat.mul_div_cancel _ (by omega),
        Nat.mul_left_inj (by omega), ← List.length_eq_zero_iff]
      simp only [hv, false_or]
      generalize vs.length / channels = frames
      omega
  rw [← hcount]
  constructor
  · intro h
    have hlength := congrArg List.length h
    simp only [c.length_bytes, List.length_map, List.length_range] at hlength
    omega
  · intro h
    rw [h]

/-- One sample and one stereo frame. -/
theorem mux_mixes_iff_frame :
    contents (Mux intCodec 2 3
        (mixerOf (intCodec.bytes [5]) (intCodec.bytes [1, 2]) [])).1.m_MixedRing =
        (ringOf []).contents ++ intCodec.bytes (mixedFrames 2 3 [5] [1, 2]) ↔
      [(5 : ℤ)] = [] ∨ [(1 : ℤ), 2] = [] ∨ [(5 : ℤ)].length ≤ [(1 : ℤ), 2].length / 2 :=
  mux_mixes_iff (Or.inr rfl) (ringOf_spec (intCodec.bytes [5]) (by simp)).1
    (ringOf_spec (intCodec.bytes [1, 2]) (by simp)).1 (by simp) (by simp) (by simp)
    ((by decide : _ ≤ 2 ^ 23 - 1).trans write_space_ringOf_nil.ge)

/-- Of two samples for one frame, the second one is lost. -/
theorem mux_loses_sample : ¬ ∀ (channels : ℕ) (xs vs : List ℤ) (e : Mixer ℤ),
    channels = 1 ∨ channels = 2 → e.first.contents = intCodec.bytes xs →
      e.audio_mix_ring.contents = intCodec.bytes vs → channels ∣ vs.length →
      4 * xs.length ≤ 4096 * 1024 → 4 * vs.length ≤ 4096 * 1024 →
      4 * (max xs.length (vs.length / channels) * channels) ≤
        e.m_MixedRing.ringbuffer_write_space →
      (Mux intCodec channels 1 e).1.m_MixedRing.contents =
        e.m_MixedRing.contents ++ intCodec.bytes (mixedFrames channels 1 xs vs) := by
  intro hall
  obtain ⟨e, hfirst, hvideo, hroom⟩ : ∃ e : Mixer ℤ,
      e.first.contents = intCodec.bytes [5, 7] ∧ e.audio_mix_ring.contents = intCodec.bytes [1] ∧
        e.m_MixedRing.ringbuffer_write_space = 2 ^ 23 - 1 :=
    ⟨mixerOf (intCodec.bytes [5, 7]) (intCodec.bytes [1]) [],
      (ringOf_spec (intCodec.bytes [5, 7]) (by simp)).1,
      (ringOf_spec (intCodec.bytes [1]) (by simp)).1, write_space_ringOf_nil⟩
  have hmixed := hall 1 [5, 7] [1] e (Or.inl rfl) hfirst hvideo (by simp) (by simp) (by simp)
    ((by decide : _ ≤ 2 ^ 23 - 1).trans hroom.ge)
  rw [Mux_contents (Or.inl rfl) hfirst hvideo (by simp) (by simp)
    ((by decide : _ ≤ 2 ^ 23 - 1).trans hroom.ge) ((by decide : _ ≤ 2 ^ 23 - 1).trans hroom.ge),
    List.append_cancel_left_eq] at hmixed
  have hlength := congrArg List.length hmixed
  simp [mixedFrames] at hlength

end MuxCall

end FreeJ
