import FreeJ.Cells
import FreeJ.Ringbuffer
import FreeJ.Transition

/-!
# Encoding the Audio

`OggTheoraEncoder::encode_frame` on an encoder with audio. After `Mux` has written to
`m_MixedRing`, all but the last float of what is there is read into `m_buffStream`, once there
are more than 1024 frames, and `encode_audio` hands the whole frames at the start of
`m_buffStream` on to `oggmux_add_audio`. A frame is a float for each channel. What `Mux` writes
is the label of a step here: any number of whole frames for which there is room.

The floats are not looked at, so that the ring is one of bytes.

## Main results

* `encode_frame_cerr`: a read is never short, and nothing is reported.
* `inv_exec`: with one channel no byte is lost; with more channels some are as soon as there
  was something to encode.
* `audio_exact_iff`: nothing is lost in the runs with one channel, and in those that write no
  more than 1024 frames.
-/

namespace FreeJ

open Transition Ringbuffer

variable {α : Type*}

/-- `ringbuffer_read` to the start of a buffer: the ring and the buffer after it, and the
number of bytes. -/
def Ringbuffer.ringbuffer_read_to (rb : Ringbuffer α) (m : Cells α) (cnt : ℕ) :
    Ringbuffer α × Cells α × ℕ :=
  ((rb.ringbuffer_read cnt).1, m.write 0 (rb.ringbuffer_read cnt).2,
    (rb.ringbuffer_read cnt).2.length)

/-- What `encode_frame` reports about a read of `rff` bytes that gave `rv`. -/
inductive ReadReport
  | impossible (rff : ℤ) (rv : ℕ)
  | pas_assez (rff : ℤ) (rv : ℕ)
deriving DecidableEq

/-- The text of a report. -/
def ReadReport.text : ReadReport → String
  | .impossible rff rv =>
    s!"------impossible de lire dans le audio_mix_ring ringbuffer !!! rff:{rff} rv:{rv}"
  | .pas_assez rff rv =>
    s!"------pas assez lu dans audio_mix_ring ringbuffer !!! rff:{rff} rv:{rv}"

/-- The audio of an encoder, with the history of what was written to `m_MixedRing`, read from
it and encoded. -/
structure OggAudio (α : Type*) where
  m_MixedRing : Ringbuffer α
  m_buffStream : Cells α
  cerr : List ReadReport
  /-- the bytes that `Mux` wrote, in order -/
  mixed : List α
  /-- the lengths of the reads, in order -/
  reads : List ℕ
  /-- what `oggmux_add_audio` took from `m_buffStream`, in order -/
  added : List (List α)

namespace OggAudio

/-- The audio of an encoder after `init`, on memory with whatever is in it. -/
def init (buf : ℕ → α) (m_buffStream : Cells α) : OggAudio α where
  m_MixedRing := ringbuffer_create (4096 * 512 * 4) buf
  m_buffStream := m_buffStream
  cerr := []
  mixed := []
  reads := []
  added := []

/-- What `Mux` does to the ring: it writes `chunk`. -/
def mux (chunk : List α) (s : OggAudio α) : OggAudio α :=
  { s with
    m_MixedRing := (s.m_MixedRing.ringbuffer_write chunk).1
    mixed := s.mixed ++ chunk }

/-- The `rff` of `encode_frame` for the `rf` bytes in the ring. The source divides in integers
and then computes with the quotient as a double, which is exact here. -/
def rff (rf : ℕ) : ℤ :=
  if rf > 4096 * 512 * 4 then 0 else ((rf / 4 : ℕ) : ℤ) * 4 - 4

/-- `encode_audio`: `oggmux_add_audio` takes `sizeInBuff / (4 * channels)` samples of each
channel. -/
def encode_audio (channels sizeInBuff : ℕ) (s : OggAudio α) : OggAudio α :=
  { s with
    added := s.added ++ [s.m_buffStream.take (sizeInBuff / (4 * channels) * (4 * channels))] }

/-- The read of `n` bytes in `encode_frame`, and what it reports. -/
def readMixed (n : ℤ) (s : OggAudio α) : OggAudio α × ℕ :=
  let r := s.m_MixedRing.ringbuffer_read_to s.m_buffStream n.toNat
  let rv := r.2.2
  ({ s with
      m_MixedRing := r.1
      m_buffStream := r.2.1
      reads := s.reads ++ [rv]
      cerr :=
        if rv = 0 then s.cerr ++ [.impossible n rv]
        else if (rv : ℤ) ≠ n then s.cerr ++ [.pas_assez n rv]
        else s.cerr }, rv)

/-- `encode_frame` after `Mux`. -/
def encode (channels : ℕ) (s : OggAudio α) : OggAudio α :=
  let rf := s.m_MixedRing.ringbuffer_read_space
  if rf ≠ 0 ∧ rff rf ≥ 1024 * 4 * channels - 1 then
    let (s, rv) := s.readMixed (rff rf)
    s.encode_audio channels rv
  else s

/-- `encode_frame`, where `Mux` writes `chunk`: whole frames, for which there is room. -/
def encode_frame (channels : ℕ) (s : OggAudio α) (chunk : List α) : Option (OggAudio α) :=
  if 4 * channels ∣ chunk.length ∧ chunk.length ≤ s.m_MixedRing.ringbuffer_write_space then
    some ((s.mux chunk).encode channels)
  else none

/-- No sample is dropped or out of order: what was encoded, and what is still in the ring, are
what was written; and every read was of whole frames. -/
def Exact (channels : ℕ) (s : OggAudio α) : Prop :=
  s.added.flatten ++ s.m_MixedRing.contents = s.mixed ∧ ∀ n ∈ s.reads, 4 * channels ∣ n

/-! ### One call -/

variable {channels : ℕ} {s : OggAudio α} {chunk : List α}

/-- The rings of the encoder have 2²³ bytes. -/
theorem size_create (buf : ℕ → α) : (ringbuffer_create (4096 * 512 * 4) buf).size = 2 ^ 23 := by
  have hpow : 4096 * 512 * 4 = 2 ^ 23 := by decide
  rw [hpow]
  exact size_create_two_pow (by omega) buf

theorem rff_eq {rf : ℕ} (hrf : rf ≤ 2 ^ 23) : rff rf = ((rf / 4 : ℕ) : ℤ) * 4 - 4 :=
  if_neg (by omega)

/-- `Mux` appends what it writes. -/
theorem mux_contents (hfit : chunk.length ≤ s.m_MixedRing.ringbuffer_write_space) :
    (s.mux chunk).m_MixedRing.contents = s.m_MixedRing.contents ++ chunk ∧
      (s.mux chunk).m_MixedRing.size = s.m_MixedRing.size := by
  obtain ⟨hcount, hcontents, hsize⟩ := s.m_MixedRing.ringbuffer_write_contents chunk
  refine ⟨?_, hsize⟩
  rw [mux, hcontents, hcount, List.take_of_length_le (by omega)]

/-- No more than 1024 frames are left where they are. -/
theorem encode_of_le (hsize : s.m_MixedRing.size = 2 ^ 23)
    (hle : s.m_MixedRing.contents.length / 4 ≤ 1024 * channels) : s.encode channels = s := by
  have hspace := s.m_MixedRing.write_space_add_read_space
  rw [length_contents] at hle
  rw [encode, if_neg]
  rintro ⟨-, henough⟩
  rw [rff_eq (by omega)] at henough
  omega

/-- Of more than 1024 frames, all but the last float is read, and the whole frames of that are
encoded. -/
theorem encode_of_lt {n : ℕ} (hsize : s.m_MixedRing.size = 2 ^ 23)
    (hn : s.m_MixedRing.contents.length / 4 * 4 = n + 4) (hlt : 1024 * 4 * channels ≤ n)
    (hpos : 0 < channels) :
    (s.encode channels).m_MixedRing.contents = s.m_MixedRing.contents.drop n ∧
      (s.encode channels).m_MixedRing.size = 2 ^ 23 ∧
      (s.encode channels).added =
        s.added ++ [s.m_MixedRing.contents.take (n / (4 * channels) * (4 * channels))] ∧
      (s.encode channels).reads = s.reads ++ [n] ∧
      (s.encode channels).mixed = s.mixed ∧ (s.encode channels).cerr = s.cerr := by
  have hspace := s.m_MixedRing.write_space_add_read_space
  obtain ⟨hread, hrest, hsize'⟩ := s.m_MixedRing.ringbuffer_read_contents n
  have hlength := s.m_MixedRing.length_contents
  have hcount : (s.m_MixedRing.ringbuffer_read n).2.length = n := by
    rw [hread]
    exact List.length_take_of_le (by omega)
  have hrff : rff s.m_MixedRing.ringbuffer_read_space = n := by
    rw [rff_eq (by omega)]
    omega
  have hwhole : n / (4 * channels) * (4 * channels) ≤ n := Nat.div_mul_le_self _ _
  have hstream : (s.m_buffStream.write 0 (s.m_MixedRing.ringbuffer_read n).2).take
      (n / (4 * channels) * (4 * channels)) =
      s.m_MixedRing.contents.take (n / (4 * channels) * (4 * channels)) := by
    rw [Cells.write_holds.take_eq (by omega), hread, List.take_take, Nat.min_eq_left hwhole]
  rw [encode, hrff, if_pos ⟨by omega, by omega⟩]
  simp only [readMixed, encode_audio, ringbuffer_read_to, Int.toNat_natCast, hcount, ne_eq,
    not_true_eq_false, if_false, hstream]
  exact ⟨hrest, hsize'.trans hsize, trivial, trivial, trivial, if_neg (by omega)⟩

/-! ### Runs -/

/-- What holds after every call: nothing was reported; with one channel nothing is lost; with
more, nothing was encoded yet or something is lost, depending on how much was written. -/
structure Inv (channels : ℕ) (s : OggAudio α) : Prop where
  size : s.m_MixedRing.size = 2 ^ 23
  frames : 4 * channels ∣ s.mixed.length
  cerr : s.cerr = []
  one : channels = 1 → s.Exact channels
  idle : channels ≠ 1 → s.mixed.length ≤ 1024 * (4 * channels) →
    s.added = [] ∧ s.reads = [] ∧ s.m_MixedRing.contents = s.mixed
  lost : channels ≠ 1 → 1024 * (4 * channels) < s.mixed.length →
    s.added.flatten.length + s.m_MixedRing.contents.length < s.mixed.length

theorem inv_init (buf : ℕ → α) (m : Cells α) : (init buf m).Inv channels where
  size := size_create buf
  frames := Nat.dvd_zero _
  cerr := rfl
  one _ := ⟨contents_create _ buf, by simp [init]⟩
  idle _ _ := ⟨rfl, rfl, contents_create _ buf⟩
  lost _ h := absurd h (Nat.not_lt_zero _)

/-- Whole frames beyond 1024 of them are enough to encode. -/
theorem lt_of_frames {k : ℕ} (hk : 4 * channels ∣ k) :
    1024 * (4 * channels) < k ↔ 1024 * channels < k / 4 := by
  obtain ⟨m, rfl⟩ := hk
  rw [Nat.mul_assoc]
  omega

/-- Writing whole frames, without encoding: what was not lost yet is lost only if there is
enough to encode. -/
theorem Inv.mux (h : s.Inv channels) (hframes : 4 * channels ∣ chunk.length)
    (hfit : chunk.length ≤ s.m_MixedRing.ringbuffer_write_space)
    (hle : (s.mux chunk).m_MixedRing.contents.length / 4 ≤ 1024 * channels) :
    (s.mux chunk).Inv channels := by
  obtain ⟨hcontents, hsize⟩ := mux_contents hfit
  have hmixed : (s.mux chunk).mixed = s.mixed ++ chunk := rfl
  have hdvd : 4 * channels ∣ (s.mux chunk).mixed.length := by
    rw [hmixed, List.length_append]
    exact Nat.dvd_add h.frames hframes
  have hmono : s.mixed.length ≤ (s.mux chunk).mixed.length := by simp [hmixed]
  refine ⟨hsize.trans h.size, hdvd, h.cerr, fun hone => ?_, fun hmore hfew => ?_,
    fun hmore hmany => ?_⟩
  · refine ⟨?_, (h.one hone).2⟩
    rw [hcontents, hmixed, ← (h.one hone).1, ← List.append_assoc]
    rfl
  · obtain ⟨hadded, hreads, hall⟩ := h.idle hmore (hmono.trans hfew)
    exact ⟨hadded, hreads, by rw [hcontents, hmixed, hall]⟩
  · by_cases hold : 1024 * (4 * channels) < s.mixed.length
    · have hlost := h.lost hmore hold
      rw [hcontents, hmixed, List.length_append, List.length_append]
      change s.added.flatten.length + _ < _
      omega
    · have hall := (h.idle hmore (Nat.le_of_not_lt hold)).2.2
      rw [hcontents, hall, ← hmixed] at hle
      exact absurd ((lt_of_frames hdvd).mp hmany) (Nat.not_lt_of_le hle)

/-- Whole frames without a float are no whole frames. -/
theorem lt_of_float_less {n : ℕ} (hmore : channels ≠ 1) (hdvd : 4 * channels ∣ n + 4) :
    n / (4 * channels) * (4 * channels) < n := by
  refine (Nat.div_mul_le_self n (4 * channels)).lt_of_ne fun heq => ?_
  rw [Nat.dvd_add_right (Dvd.intro_left _ heq)] at hdvd
  have hle := Nat.le_of_dvd (by omega) hdvd
  have hzero : channels = 0 := by omega
  subst hzero
  omega

/-- Encoding after whole frames were written: with one channel all floats that were read are
encoded, with more the last frame is read without its last float, and is lost. -/
theorem Inv.encode (h : s.Inv channels) (hpos : 0 < channels)
    (hframes : 4 * channels ∣ chunk.length)
    (hfit : chunk.length ≤ s.m_MixedRing.ringbuffer_write_space)
    (hlt : 1024 * channels < (s.mux chunk).m_MixedRing.contents.length / 4) :
    ((s.mux chunk).encode channels).Inv channels := by
  obtain ⟨hcontents, hsize⟩ := mux_contents hfit
  obtain ⟨n, hn⟩ : ∃ n, (s.mux chunk).m_MixedRing.contents.length / 4 * 4 = n + 4 :=
    ⟨(s.mux chunk).m_MixedRing.contents.length / 4 * 4 - 4, by omega⟩
  obtain ⟨hrest, hsize', hadded, hreads, hmixed, hcerr⟩ :=
    encode_of_lt (hsize.trans h.size) hn (by omega) hpos
  have hmixed : ((s.mux chunk).encode channels).mixed = s.mixed ++ chunk := hmixed
  have hadded : ((s.mux chunk).encode channels).added = s.added ++ [_] := hadded
  have hdvd : 4 * channels ∣ (s.mixed ++ chunk).length := by
    rw [List.length_append]
    exact Nat.dvd_add h.frames hframes
  have hwhole : n / (4 * channels) * (4 * channels) ≤ n := Nat.div_mul_le_self _ _
  refine ⟨hsize', by rwa [hmixed], hcerr.trans h.cerr, fun hone => ?_, fun hmore hfew => ?_,
    fun hmore hmany => ?_⟩
  · obtain ⟨hall, haligned⟩ := h.one hone
    subst hone
    have hfour : 4 * 1 ∣ n := by omega
    rw [Exact, hrest, hadded, hreads, hmixed, Nat.div_mul_cancel hfour, hcontents, ← hall]
    refine ⟨by simp, ?_⟩
    intro k hk
    rcases List.mem_append.mp hk with hk | hk
    · exact haligned k hk
    · rwa [List.mem_singleton.mp hk]
  · -- so little was written that there is not enough to encode
    rw [hmixed] at hfew
    have hold := (h.idle hmore (by rw [List.length_append] at hfew; omega)).2.2
    rw [hcontents, hold, ← lt_of_frames hdvd] at hlt
    exact absurd hlt (Nat.not_lt_of_le hfew)
  · rw [hrest, hadded, hmixed, List.flatten_append, List.flatten_singleton, List.length_append,
      List.length_drop, List.length_take_of_le (by omega)]
    by_cases hold : 1024 * (4 * channels) < s.mixed.length
    · have hlost := h.lost hmore hold
      rw [hcontents] at hn ⊢
      simp only [List.length_append] at hn ⊢
      omega
    · obtain ⟨hnil, -, hall⟩ := h.idle hmore (Nat.le_of_not_lt hold)
      have hshort : n / (4 * channels) * (4 * channels) < n := by
        have hlength : (s.mixed ++ chunk).length = n + 4 := by
          rw [← hall, ← hcontents, ← hn, Nat.div_mul_cancel]
          rw [hcontents, hall]
          exact (Nat.dvd_mul_right 4 channels).trans hdvd
        exact lt_of_float_less hmore (hlength ▸ hdvd)
      rw [hnil, hcontents, hall, List.flatten_nil, List.length_nil]
      rw [hcontents, hall] at hn
      omega

/-- A call keeps the invariant. -/
theorem Inv.step {t : OggAudio α} (h : s.Inv channels) (hpos : 0 < channels)
    (hstep : encode_frame channels s chunk = some t) : t.Inv channels := by
  rw [encode_frame] at hstep
  split at hstep
  · rename_i hok
    obtain rfl := Option.some.inj hstep
    by_cases hle : (s.mux chunk).m_MixedRing.contents.length / 4 ≤ 1024 * channels
    · rw [encode_of_le ((mux_contents hok.2).2.trans h.size) hle]
      exact h.mux hok.1 hok.2 hle
    · exact h.encode hpos hok.1 hok.2 (Nat.lt_of_not_le hle)
  · simp at hstep

theorem encode_mixed : (s.encode channels).mixed = s.mixed := by
  rw [encode]
  split <;> rfl

/-- A run keeps the invariant, and what was written are its chunks. -/
theorem inv_exec {chunks : List (List α)} {t : OggAudio α} (h : s.Inv channels)
    (hpos : 0 < channels) (hrun : exec (encode_frame channels) s chunks = some t) :
    t.Inv channels ∧ t.mixed = s.mixed ++ chunks.flatten := by
  induction chunks generalizing s with
  | nil =>
      obtain rfl := Option.some.inj hrun
      exact ⟨h, by simp⟩
  | cons chunk chunks ih =>
      obtain ⟨u, hu, hrun⟩ := Option.bind_eq_some_iff.mp hrun
      obtain ⟨ht, hmixed⟩ := ih (h.step hpos hu) hrun
      have humixed : u.mixed = s.mixed ++ chunk := by
        rw [encode_frame] at hu
        split at hu
        · rw [← Option.some.inj hu, encode_mixed]
          rfl
        · simp at hu
      exact ⟨ht, by rw [hmixed, humixed, List.flatten_cons, List.append_assoc]⟩

/-- **A read is never short**: in no run is anything reported. -/
theorem encode_frame_cerr {buf : ℕ → α} {m : Cells α} {chunks : List (List α)} {t : OggAudio α}
    (hpos : 0 < channels) (hrun : exec (encode_frame channels) (init buf m) chunks = some t) :
    t.cerr = [] :=
  (inv_exec (inv_init buf m) hpos hrun).1.cerr

/-- What the invariant says of the samples. -/
theorem Inv.exact_iff (h : s.Inv channels) :
    s.Exact channels ↔ channels = 1 ∨ s.mixed.length ≤ 1024 * (4 * channels) := by
  constructor
  · rintro ⟨hall, -⟩
    by_contra hnot
    push Not at hnot
    have hlost := h.lost hnot.1 hnot.2
    rw [← List.length_append, hall] at hlost
    exact Nat.lt_irrefl _ hlost
  · intro hok
    by_cases hone : channels = 1
    · exact h.one hone
    · obtain ⟨hadded, hreads, hall⟩ := h.idle hone (hok.resolve_left hone)
      exact ⟨by rw [hadded, hall]; rfl, by simp [hreads]⟩

/-- **No sample is dropped or out of order** exactly in the runs with one channel and in those
that write no more than 1024 frames: `encode_frame` leaves one float in the ring, not one
frame. -/
theorem audio_exact_iff {buf : ℕ → α} {m : Cells α} {chunks : List (List α)} {t : OggAudio α}
    (hpos : 1 ≤ channels) (hrun : exec (encode_frame channels) (init buf m) chunks = some t) :
    t.Exact channels ↔ channels = 1 ∨ chunks.flatten.length ≤ 1024 * (4 * channels) := by
  obtain ⟨hinv, hmixed⟩ := inv_exec (inv_init buf m) hpos hrun
  rw [hinv.exact_iff, hmixed]
  rfl

/-- A call with a chunk that fits is a run. -/
theorem exec_one {buf : ℕ → α} {m : Cells α} (hframes : 4 * channels ∣ chunk.length)
    (hfit : chunk.length < 2 ^ 23) :
    exec (encode_frame channels) (init buf m) [chunk] =
      some (((init buf m).mux chunk).encode channels) := by
  have hspace := (init buf m).m_MixedRing.write_space_add_read_space
  have hsize : (init buf m).m_MixedRing.size = 2 ^ 23 := size_create buf
  have hread : (init buf m).m_MixedRing.ringbuffer_read_space = 0 := read_space_create _ buf
  rw [exec, encode_frame, if_pos ⟨hframes, by omega⟩]
  rfl

/-- One frame is left in the ring. -/
theorem audio_exact_iff_frame :
    ∃ t, exec (encode_frame 2) (init (fun _ => 0) ⟨fun _ => 0, []⟩) [List.range 8] = some t ∧
      (t.Exact 2 ↔ 2 = 1 ∨ [List.range 8].flatten.length ≤ 1024 * (4 * 2)) :=
  ⟨_, exec_one (by simp) (by simp), audio_exact_iff (by omega) (exec_one (by simp) (by simp))⟩

/-- Of 1025 stereo frames, the last one is torn: its first float is read, and not encoded. -/
theorem audio_torn :
    ¬ ∀ (channels : ℕ) (buf : ℕ → ℕ) (m : Cells ℕ) (chunks : List (List ℕ)) (t : OggAudio ℕ),
      1 ≤ channels → exec (encode_frame channels) (init buf m) chunks = some t →
        t.Exact channels := by
  intro hall
  obtain ⟨t, hrun⟩ : ∃ t, exec (encode_frame 2) (init (fun _ => 0) ⟨fun _ => 0, []⟩)
      [List.range 8200] = some t := ⟨_, exec_one (by simp) (by simp)⟩
  have hexact := hall 2 _ _ _ _ (by omega) hrun
  obtain ⟨hinv, hmixed⟩ := inv_exec (inv_init _ _) (by omega) hrun
  rw [hinv.exact_iff, hmixed, List.flatten_singleton, List.length_append, List.length_range]
    at hexact
  omega

end OggAudio

end FreeJ
