import FreeJ.AudioMux

/-!
# The Buffers of the Mixer

The rings of the JACK client hold up to one byte less than 2²³, `m_MixBuffer` has 2²² and
`m_MixBufferOperation` 2²³ bytes. `Mux` reads all that is in the rings, and looks whether there
is room in `m_MixedRing` before it writes, with nothing in `audio_mix_ring` for one channel
only.

## Main results

* `loaded_upTo`, `mix_upTo`: how far into the buffers a call reads and writes.
* `mux_safe_of_no_first`, `mux_safe_first_iff`, `mux_safe_both_iff`: the calls by what is in the
  rings.
* `mux_safe_iff`: when a call stays inside its buffers, and looked for as much room as it
  writes.
-/

namespace FreeJ

open Ringbuffer

namespace MuxCall

variable {R α : Type*} [NonUnitalNonAssocSemiring R] {c : FloatCodec R α} {channels : ℕ}
  {m_MixVal : R} {e : Mixer α} {s t : MuxCall α}

/-- All accesses were inside the buffers, there was room for all that was to be written, and no
write was reported to be short. -/
def Safe (t : MuxCall α) : Prop :=
  t.m_MixBuffer.Within 0 (4096 * 1024 : ℕ) ∧
    t.m_MixBufferOperation.Within 0 (4096 * 1024 * 2 : ℕ) ∧
    (∀ w ∈ t.writes, w.1 ≤ w.2) ∧ ∀ rb size, .instead_of rb size ∉ t.cerr

variable {k k' : ℕ}

/-- Without a write and a report of one, the accesses decide. -/
theorem safe_iff_of_quiet (hk : t.m_MixBuffer.UpTo k) (hk' : t.m_MixBufferOperation.UpTo k')
    (hwrites : t.writes = []) (hcerr : ∀ rb size, .instead_of rb size ∉ t.cerr) :
    t.Safe ↔ k ≤ 4096 * 1024 ∧ k' ≤ 4096 * 1024 * 2 := by
  rw [Safe, hk.within_iff, hk'.within_iff, hwrites]
  simp [hcerr]

/-- A write is safe if the accesses before it were, and there is room for it. -/
theorem safe_sendMixed_iff {size : ℕ} (hk : t.m_MixBuffer.UpTo k)
    (hk' : t.m_MixBufferOperation.UpTo k') (hwrites : t.writes = []) (hcerr : t.cerr = []) :
    (t.sendMixed size).1.Safe ↔ k ≤ 4096 * 1024 ∧
      max k' (min size t.m_MixedRing.ringbuffer_write_space) ≤ 4096 * 1024 * 2 ∧
        size ≤ t.m_MixedRing.ringbuffer_write_space := by
  obtain ⟨-, hbuffer, hop, hw, hc⟩ := sendMixed_spec size t
  rw [Safe, hbuffer, hop, hw, hc, hk.within_iff, hk'.read.within_iff, hwrites, hcerr]
  split_ifs with hroom <;> simp [hroom]

/-- The clearing. -/
theorem start_upTo : (start c e).m_MixBuffer.UpTo (4096 * 1024) ∧
    (start c e).m_MixBufferOperation.UpTo (4096 * 1024 * 2) := by
  have hnone : ∀ cell : ℤ → α, (Cells.mk cell []).UpTo 0 := fun cell j => by
    simp only [List.not_mem_nil, false_iff]
    omega
  have hfirst := (hnone e.m_MixBuffer).memset (a := c.zero) (k := 4096 * 1024)
  have hvideo := (hnone e.m_MixBufferOperation).memset (a := c.zero) (k := 4096 * 1024 * 2)
  rw [Nat.zero_max] at hfirst hvideo
  exact ⟨hfirst, hvideo⟩

/-- The clearing and the reads of the rings. -/
theorem loaded_upTo :
    (loaded c e).m_MixBuffer.UpTo (max (4096 * 1024) e.first.ringbuffer_read_space) ∧
      (loaded c e).m_MixBufferOperation.UpTo
        (max (4096 * 1024 * 2) e.audio_mix_ring.ringbuffer_read_space) := by
  obtain ⟨hfirst, hvideo⟩ := start_upTo (c := c) (e := e)
  rw [← length_contents, ← length_contents]
  exact ⟨hfirst.write, hvideo.write⟩

/-- The loop. -/
theorem mix_upTo (c : FloatCodec R α) (channels : ℕ) (m_MixVal : R) (n : ℕ)
    (hk : s.m_MixBuffer.UpTo k) (hk' : s.m_MixBufferOperation.UpTo k') :
    (s.mix c channels m_MixVal n 0 0).m_MixBuffer.UpTo (max k (4 * n)) ∧
      (s.mix c channels m_MixVal n 0 0).m_MixBufferOperation.UpTo
        (max k' (4 * (step channels * n))) := by
  have hmix := mix_start (s := s) c channels m_MixVal n
  refine ⟨hk.union fun j => ?_, hk'.union fun j => ?_⟩
  · rw [hmix.touched]
    refine or_congr_right ⟨?_, fun h => ⟨step channels * (j / 4), ?_⟩⟩
    · rintro ⟨i, h1, h2, h3, h4⟩
      rw [step] at *
      split_ifs at * <;> omega
    · rw [step]
      split_ifs <;> omega
  · rw [hmix.touched_op]
    refine or_congr_right ?_
    omega

/-- The rings are as large as `JackClient::Attach` and `init` create them. -/
structure Sized (e : Mixer α) : Prop where
  first : e.first.size = 4096 * 512 * 4
  audio_mix_ring : e.audio_mix_ring.size = 4096 * 512 * 4
  m_MixedRing : e.m_MixedRing.size = 4096 * 512 * 4

theorem Sized.spaces (hsized : Sized e) :
    e.first.ringbuffer_read_space < 4096 * 512 * 4 ∧
      e.audio_mix_ring.ringbuffer_read_space < 4096 * 512 * 4 ∧
        e.m_MixedRing.ringbuffer_write_space < 4096 * 512 * 4 := by
  have hfirst := e.first.write_space_add_read_space
  have hvideo := e.audio_mix_ring.write_space_add_read_space
  have hmixed := e.m_MixedRing.write_space_add_read_space
  rw [hsized.first] at hfirst
  rw [hsized.audio_mix_ring] at hvideo
  rw [hsized.m_MixedRing] at hmixed
  omega

theorem step_le (channels : ℕ) : 1 ≤ step channels ∧ step channels ≤ 2 := by
  rw [step]
  split_ifs <;> omega

/-- A call with nothing in `first`: what `audio_mix_ring` holds is smaller than
`m_MixBufferOperation`. -/
theorem mux_safe_of_no_first (hsized : Sized e) (hfirst : e.first.ringbuffer_read_space = 0) :
    (Mux c channels m_MixVal e).1.Safe := by
  obtain ⟨-, hvideo, -⟩ := hsized.spaces
  obtain ⟨hk, hk'⟩ := loaded_upTo (c := c) (e := e)
  rw [hfirst] at hk
  by_cases hnone : e.audio_mix_ring.ringbuffer_read_space = 0
  · obtain ⟨hs, hs'⟩ := start_upTo (c := c) (e := e)
    rw [Mux_none _ _ _ hfirst hnone]
    exact (safe_iff_of_quiet hs hs' rfl (by simp [start])).mpr ⟨by omega, by omega⟩
  · rw [Mux_video _ _ _ hfirst hnone]
    split_ifs with hroom
    · exact (safe_sendMixed_iff hk hk' rfl rfl).mpr
        ⟨by omega, max_le (by omega) ((min_le_left _ _).trans (by omega)), hroom⟩
    · exact (safe_iff_of_quiet hk hk' rfl (by simp [loaded, start])).mpr ⟨by omega, by omega⟩

/-- A call with nothing in `audio_mix_ring`: there is room for one channel, and it is for all
channels that it writes. -/
theorem mux_safe_first_iff (hsized : Sized e) (hfirst : e.first.ringbuffer_read_space ≠ 0)
    (hvideo : e.audio_mix_ring.ringbuffer_read_space = 0) :
    (Mux c channels m_MixVal e).1.Safe ↔ e.first.ringbuffer_read_space ≤ 4096 * 1024 ∧
      (e.m_MixedRing.ringbuffer_write_space < e.first.ringbuffer_read_space ∨
        e.first.ringbuffer_read_space * channels ≤ e.m_MixedRing.ringbuffer_write_space) := by
  obtain ⟨-, -, hmixed⟩ := hsized.spaces
  obtain ⟨hk, hk'⟩ := loaded_upTo (c := c) (e := e)
  obtain ⟨hm, hm'⟩ :=
    mix_upTo c channels m_MixVal (e.first.ringbuffer_read_space / 4) hk hk'
  have hstart := mix_start (s := loaded c e) c channels m_MixVal
    (e.first.ringbuffer_read_space / 4)
  have hfloats := Nat.mul_le_mul_right (e.first.ringbuffer_read_space / 4)
    (step_le channels).2
  have hring : (loaded c e).m_MixedRing = e.m_MixedRing := rfl
  rw [Mux_first _ _ _ hfirst hvideo]
  dsimp only
  split_ifs with hroom
  · rw [safe_sendMixed_iff hm hm' hstart.writes hstart.cerr, mix_ring, hring]
    omega
  · have hcerr : ((loaded c e).mix c channels m_MixVal
        (e.first.ringbuffer_read_space / 4) 0 0).cerr = [] := hstart.cerr
    rw [safe_iff_of_quiet hm hm' hstart.writes (by simp [hcerr])]
    omega

/-- A call with something in both rings: the loop reads as much of `m_MixBuffer` as
`audio_mix_ring` held. -/
theorem mux_safe_both_iff (hsized : Sized e) (hfirst : e.first.ringbuffer_read_space ≠ 0)
    (hvideo : e.audio_mix_ring.ringbuffer_read_space ≠ 0)
    (hfour : 4 ∣ e.audio_mix_ring.ringbuffer_read_space) :
    (Mux c channels m_MixVal e).1.Safe ↔ e.first.ringbuffer_read_space ≤ 4096 * 1024 ∧
      e.audio_mix_ring.ringbuffer_read_space ≤ 4096 * 1024 := by
  obtain ⟨-, -, hmixed⟩ := hsized.spaces
  obtain ⟨hk, hk'⟩ := loaded_upTo (c := c) (e := e)
  obtain ⟨hm, hm'⟩ :=
    mix_upTo c channels m_MixVal (e.audio_mix_ring.ringbuffer_read_space / 4) hk hk'
  have hstart := mix_start (s := loaded c e) c channels m_MixVal
    (e.audio_mix_ring.ringbuffer_read_space / 4)
  have hfloats := Nat.mul_le_mul_right (e.audio_mix_ring.ringbuffer_read_space / 4)
    (step_le channels).2
  have hring : (loaded c e).m_MixedRing = e.m_MixedRing := rfl
  rw [Mux_both _ _ _ hfirst hvideo]
  dsimp only
  split_ifs with hroom
  · rw [safe_sendMixed_iff hm hm' hstart.writes hstart.cerr, mix_ring, hring]
    omega
  · have hcerr : ((loaded c e).mix c channels m_MixVal
        (e.audio_mix_ring.ringbuffer_read_space / 4) 0 0).cerr = [] := hstart.cerr
    refine (safe_iff_of_quiet (t := report .not_enough_memory _) hm hm' hstart.writes
      (by simp [report, hcerr])).trans ?_
    omega

/-- **A call is safe** exactly when there is nothing in `first`, or neither ring holds more than
`m_MixBuffer` can, and, with nothing in `audio_mix_ring`, there is room for `first` on all
channels, or not even on one: the room is looked at for one channel only. -/
theorem mux_safe_iff (hsized : Sized e)
    (hvideo : 4 * channels ∣ e.audio_mix_ring.ringbuffer_read_space) :
    (Mux c channels m_MixVal e).1.Safe ↔
      e.first.ringbuffer_read_space = 0 ∨
        e.first.ringbuffer_read_space ≤ 4096 * 1024 ∧
          e.audio_mix_ring.ringbuffer_read_space ≤ 4096 * 1024 ∧
          (e.audio_mix_ring.ringbuffer_read_space = 0 →
            e.m_MixedRing.ringbuffer_write_space < e.first.ringbuffer_read_space ∨
              e.first.ringbuffer_read_space * channels ≤
                e.m_MixedRing.ringbuffer_write_space) := by
  have hfour : 4 ∣ e.audio_mix_ring.ringbuffer_read_space := (Nat.dvd_mul_right 4 _).trans hvideo
  by_cases hfirst : e.first.ringbuffer_read_space = 0
  · exact iff_of_true (mux_safe_of_no_first hsized hfirst) (.inl hfirst)
  by_cases hnone : e.audio_mix_ring.ringbuffer_read_space = 0
  · rw [mux_safe_first_iff hsized hfirst hnone, hnone]
    simp [hfirst]
  · rw [mux_safe_both_iff hsized hfirst hnone hfour]
    simp [hfirst, hnone]

theorem sized_mixerOf {first video mixed : List ℤ} (h₁ : first.length < 2 ^ 23)
    (h₂ : video.length < 2 ^ 23) (h₃ : mixed.length < 2 ^ 23) :
    Sized (mixerOf first video mixed) where
  first := (ringOf_spec first h₁).2.1
  audio_mix_ring := (ringOf_spec video h₂).2.1
  m_MixedRing := (ringOf_spec mixed h₃).2.1

/-- Nothing but one frame of the layers. -/
theorem mux_safe_iff_frame :
    (Mux intCodec 2 3 (mixerOf [] (intCodec.bytes [1, 2]) [])).1.Safe ↔
      (ringOf []).ringbuffer_read_space = 0 ∨
        (ringOf []).ringbuffer_read_space ≤ 4096 * 1024 ∧
          (ringOf (intCodec.bytes [1, 2])).ringbuffer_read_space ≤ 4096 * 1024 ∧
          ((ringOf (intCodec.bytes [1, 2])).ringbuffer_read_space = 0 →
            (ringOf []).ringbuffer_write_space < (ringOf []).ringbuffer_read_space ∨
              (ringOf []).ringbuffer_read_space * 2 ≤ (ringOf []).ringbuffer_write_space) :=
  mux_safe_iff (sized_mixerOf (by simp) (by simp) (by simp)) (by
    have hframe := (ringOf_spec (intCodec.bytes [1, 2]) (by simp)).1
    rw [← length_contents]
    change 4 * 2 ∣ (ringOf (intCodec.bytes [1, 2])).contents.length
    rw [hframe]
    decide)

/-- One sample, for two channels, and room for a sample: what is written is short. -/
theorem mux_writes_short : ¬ ∀ (channels : ℕ) (e : Mixer ℤ), 1 ≤ channels → Sized e →
    4 * channels ∣ e.audio_mix_ring.ringbuffer_read_space →
      (Mux intCodec channels 1 e).1.Safe := by
  intro hall
  obtain ⟨e, hsized, hfirst, hvideo, hroom⟩ : ∃ e : Mixer ℤ, Sized e ∧
      e.first.ringbuffer_read_space = 4 ∧ e.audio_mix_ring.ringbuffer_read_space = 0 ∧
        e.m_MixedRing.ringbuffer_write_space = 4 := by
    obtain ⟨full, hlength⟩ : ∃ full : List ℤ, full.length = 2 ^ 23 - 5 :=
      ⟨List.replicate _ 0, List.length_replicate⟩
    have hfull := (ringOf_spec full (by omega)).2.2
    refine ⟨mixerOf (intCodec.bytes [5]) [] full,
      sized_mixerOf (by simp) (by simp) (by omega), ?_, ?_, ?_⟩
    · exact (length_contents _).symm.trans
        (congrArg List.length (ringOf_spec (intCodec.bytes [5]) (by simp)).1)
    · exact (length_contents _).symm.trans (congrArg List.length (ringOf_spec [] (by simp)).1)
    · change (ringOf full).ringbuffer_write_space = 4
      omega
  have hsafe := hall 2 e (by omega) hsized (by rw [hvideo]; exact Nat.dvd_zero _)
  rw [mux_safe_first_iff hsized (by omega) hvideo] at hsafe
  omega

end MuxCall

end FreeJ
