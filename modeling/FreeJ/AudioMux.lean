import Mathlib.Algebra.Ring.Int.Defs
import FreeJ.OggAudio
import FreeJ.WordCells

/-!
# Mixing the Audio

`OggTheoraEncoder::Mux` takes what is in two rings of the JACK client, the samples of the first
input port in `first` and the frames of the layers in `audio_mix_ring`, mixes them, and writes
the result to `m_MixedRing`. It reads both rings to buffers of its own, which it clears first,
and adds every sample of `m_MixBuffer` to each channel of a frame of `m_MixBufferOperation`.

Floats are words of four bytes over a type with exact operations. The sizes in bytes are not
bounded as the `int`s of the source are; they are below 2²³ there, only `sizeFirst*channels`
could go beyond.

## Main results

* `mix_mixed`: what the loop writes, and where it reads and writes.
* `sendMixed_spec`: what is written of the mix, and reported.
* `Mux_both`, `Mux_first`, `Mux_video`, `Mux_none`: a call in each of the cases.
-/

namespace FreeJ

open Ringbuffer

/-- Floats as they are stored; `memset` to 0 makes the float zero. -/
structure FloatCodec (R α : Type*) [Zero R] extends WordCodec R α where
  zero : α
  decode_zero : decode (fun _ => zero) = 0

/-- What `Mux` reports. -/
inductive MuxReport
  | reading_in_ring
  | reading_audio_mix_ring
  | not_enough_memory
  | instead_of (rb size : ℕ)
deriving DecidableEq

/-- The text of a report. -/
def MuxReport.text : MuxReport → String
  | .reading_in_ring => "----- Problems reading the in_ring"
  | .reading_audio_mix_ring => "----- Problems reading the audio_mix_ring"
  | .not_enough_memory => "------ not enough memory in audio_mix_ring buffer !!!"
  | .instead_of rb size => s!"---{rb} : au lieu de :{size} octets ecrits dans le ringbuffer !!"

/-- The rings of the JACK client and of the encoder, and the buffers of `Mux`. -/
structure Mixer (α : Type*) where
  first : Ringbuffer α
  audio_mix_ring : Ringbuffer α
  m_MixedRing : Ringbuffer α
  m_MixBuffer : ℤ → α
  m_MixBufferOperation : ℤ → α

/-- A call of `Mux` as far as it has come, with the accesses to the buffers. -/
structure MuxCall (α : Type*) where
  first : Ringbuffer α
  audio_mix_ring : Ringbuffer α
  m_MixedRing : Ringbuffer α
  m_MixBuffer : Cells α
  m_MixBufferOperation : Cells α
  /-- the writes to `m_MixedRing`: how much was to be written, and the room for it -/
  writes : List (ℕ × ℕ)
  cerr : List MuxReport

variable {R α : Type*}

namespace MuxCall

def report (r : MuxReport) (s : MuxCall α) : MuxCall α :=
  { s with cerr := s.cerr ++ [r] }

/-- `ringbuffer_read (first, m_MixBuffer, size)` -/
def readFirst (size : ℕ) (s : MuxCall α) : MuxCall α × ℕ :=
  let r := s.first.ringbuffer_read_to s.m_MixBuffer size
  ({ s with first := r.1, m_MixBuffer := r.2.1 }, r.2.2)

/-- `ringbuffer_read (audio_mix_ring, m_MixBufferOperation, size)` -/
def readVideo (size : ℕ) (s : MuxCall α) : MuxCall α × ℕ :=
  let r := s.audio_mix_ring.ringbuffer_read_to s.m_MixBufferOperation size
  ({ s with audio_mix_ring := r.1, m_MixBufferOperation := r.2.1 }, r.2.2)

/-- `ringbuffer_write (m_MixedRing, m_MixBufferOperation, size)`, which reads as much of the
buffer as it writes. -/
def writeMixed (size : ℕ) (s : MuxCall α) : MuxCall α × ℕ :=
  let r := s.m_MixedRing.ringbuffer_write (s.m_MixBufferOperation.take size)
  ({ s with
      m_MixedRing := r.1
      m_MixBufferOperation := s.m_MixBufferOperation.read 0 r.2
      writes := s.writes ++ [(size, s.m_MixedRing.ringbuffer_write_space)] }, r.2)

/-- Write the mix, and look whether all of it was written. -/
def sendMixed (size : ℕ) (s : MuxCall α) : MuxCall α × ℕ :=
  let (s, rb) := s.writeMixed size
  if rb ≠ size then (s.report (.instead_of rb size), 0) else (s, size)

section Floats

variable [NonUnitalNonAssocSemiring R] (c : FloatCodec R α) (channels : ℕ) (m_MixVal : R)

/-- `memset` of the two buffers. -/
def start (e : Mixer α) : MuxCall α where
  first := e.first
  audio_mix_ring := e.audio_mix_ring
  m_MixedRing := e.m_MixedRing
  m_MixBuffer := (Cells.mk e.m_MixBuffer []).memset c.zero (4096 * 1024)
  m_MixBufferOperation := (Cells.mk e.m_MixBufferOperation []).memset c.zero (4096 * 1024 * 2)
  writes := []
  cerr := []

/-- `*mixPtr += *ringPtr * m_MixVal` -/
def add (mixPtr ringPtr : ℤ) (s : MuxCall α) : MuxCall α :=
  let mixed := s.m_MixBufferOperation.load c.toWordCodec mixPtr +
    s.m_MixBuffer.load c.toWordCodec ringPtr * m_MixVal
  { s with
    m_MixBuffer := s.m_MixBuffer.read (4 * ringPtr) 4
    m_MixBufferOperation :=
      (s.m_MixBufferOperation.read (4 * mixPtr) 4).store c.toWordCodec mixPtr mixed }

/-- `n` rounds of the loops of `Mux`. -/
def mix : ℕ → ℤ → ℤ → MuxCall α → MuxCall α
  | 0, _, _, s => s
  | n + 1, mixPtr, ringPtr, s =>
    if channels > 1 then
      mix n (mixPtr + 2) (ringPtr + 1)
        ((s.add c m_MixVal mixPtr ringPtr).add c m_MixVal (mixPtr + 1) ringPtr)
    else mix n (mixPtr + 1) (ringPtr + 1) (s.add c m_MixVal mixPtr ringPtr)

/-- `Mux`: the rings and buffers after it, and what it returns. -/
def Mux (e : Mixer α) : MuxCall α × ℕ :=
  let s := start c e
  let sizeFirst := e.first.ringbuffer_read_space
  let sizeVideo := e.audio_mix_ring.ringbuffer_read_space
  if sizeFirst ≠ 0 then
    let (s, rv) := s.readFirst sizeFirst
    if rv ≠ sizeFirst then (s.report .reading_in_ring, 0)
    else if sizeVideo ≠ 0 then
      let (s, rf) := s.readVideo sizeVideo
      if rf ≠ sizeVideo then (s.report .reading_audio_mix_ring, 0)
      else
        let s := s.mix c channels m_MixVal (rf / 4) 0 0
        if s.m_MixedRing.ringbuffer_write_space ≥ sizeVideo then s.sendMixed sizeVideo
        else (s.report .not_enough_memory, 0)
    else
      let s := s.mix c channels m_MixVal (sizeFirst / 4) 0 0
      if s.m_MixedRing.ringbuffer_write_space ≥ sizeFirst then
        s.sendMixed (sizeFirst * channels)
      else (s, sizeVideo)
  else if sizeVideo ≠ 0 then
    let (s, rv) := s.readVideo sizeVideo
    if rv ≠ sizeVideo then (s.report .reading_audio_mix_ring, 0)
    else if s.m_MixedRing.ringbuffer_write_space ≥ sizeVideo then s.sendMixed sizeVideo
    else (s, sizeVideo)
  else (s, sizeVideo)

end Floats

/-! ### The loop -/

variable [NonUnitalNonAssocSemiring R] {c : FloatCodec R α} {channels : ℕ} {m_MixVal : R}
  {s t u : MuxCall α} {g : ℤ → ℤ} {lo mid hi : ℤ}

/-- From `s` to `t` the words from `lo` to before `hi` of `m_MixBufferOperation` were mixed, the
word at `i` with the word at `g i` of `m_MixBuffer`. -/
structure Mixed (c : FloatCodec R α) (m_MixVal : R) (g : ℤ → ℤ) (lo hi : ℤ) (s t : MuxCall α) :
    Prop where
  ring : t.m_MixedRing = s.m_MixedRing
  writes : t.writes = s.writes
  cerr : t.cerr = s.cerr
  buffer : t.m_MixBuffer.cell = s.m_MixBuffer.cell
  word : ∀ i, lo ≤ i → i < hi → t.m_MixBufferOperation.HoldsWord c.toWordCodec i
    (s.m_MixBufferOperation.load c.toWordCodec i +
      s.m_MixBuffer.load c.toWordCodec (g i) * m_MixVal)
  rest : ∀ b, b < 4 * lo ∨ 4 * hi ≤ b →
    t.m_MixBufferOperation.cell b = s.m_MixBufferOperation.cell b
  touched : ∀ b, b ∈ t.m_MixBuffer.touched ↔
    b ∈ s.m_MixBuffer.touched ∨ ∃ i, lo ≤ i ∧ i < hi ∧ 4 * g i ≤ b ∧ b < 4 * g i + 4
  touched_op : ∀ b, b ∈ t.m_MixBufferOperation.touched ↔
    b ∈ s.m_MixBufferOperation.touched ∨ 4 * lo ≤ b ∧ b < 4 * hi

theorem Mixed.refl : Mixed c m_MixVal g lo lo s s where
  ring := rfl
  writes := rfl
  cerr := rfl
  buffer := rfl
  word i h1 h2 := by omega
  rest _ _ := rfl
  touched b := by
    refine (or_iff_left ?_).symm
    rintro ⟨i, h1, h2, -⟩
    omega
  touched_op b := (or_iff_left (by omega)).symm

/-- Mixing one word. -/
theorem Mixed.add {r : ℤ} (hr : g lo = r) :
    Mixed c m_MixVal g lo (lo + 1) s (s.add c m_MixVal lo r) where
  ring := rfl
  writes := rfl
  cerr := rfl
  buffer := rfl
  word i h1 h2 := by
    obtain rfl : i = lo := by omega
    rw [hr]
    exact Cells.holdsWord_store
  rest b hb := by
    refine Cells.store_cell_of_ne ?_
    omega
  touched b := by
    refine Cells.mem_touched_read.trans (or_congr_right ⟨fun h => ⟨lo, ?_⟩, ?_⟩)
    · rw [hr]
      exact ⟨by omega, by omega, h.1, h.2⟩
    · rintro ⟨i, h1, h2, h3, h4⟩
      obtain rfl : i = lo := by omega
      rw [hr] at h3 h4
      exact ⟨h3, h4⟩
  touched_op b := by
    refine Cells.mem_touched_store.trans ?_
    rw [Cells.mem_touched_read, or_assoc]
    exact or_congr_right (by omega)

/-- Mixing words and then the next ones. -/
theorem Mixed.trans (h : Mixed c m_MixVal g lo mid s t) (h' : Mixed c m_MixVal g mid hi t u)
    (hlo : lo ≤ mid) (hhi : mid ≤ hi) : Mixed c m_MixVal g lo hi s u where
  ring := h'.ring.trans h.ring
  writes := h'.writes.trans h.writes
  cerr := h'.cerr.trans h.cerr
  buffer := h'.buffer.trans h.buffer
  word i h1 h2 := by
    by_cases hi : i < mid
    · -- the later words leave this one as it is
      intro k
      rw [h'.rest _ (by omega)]
      exact h.word i h1 hi k
    · have hword := h'.word i (by omega) h2
      rwa [Cells.load_congr fun k => h.rest _ (by omega),
        Cells.load_congr fun k => congrFun h.buffer _] at hword
  rest b hb := (h'.rest b (by omega)).trans (h.rest b (by omega))
  touched b := by
    rw [h'.touched, h.touched, or_assoc]
    refine or_congr_right ⟨?_, ?_⟩
    · rintro (⟨i, h1, h2, h3⟩ | ⟨i, h1, h2, h3⟩)
      · exact ⟨i, h1, by omega, h3⟩
      · exact ⟨i, by omega, h2, h3⟩
    · rintro ⟨i, h1, h2, h3⟩
      by_cases hi : i < mid
      · exact Or.inl ⟨i, h1, hi, h3⟩
      · exact Or.inr ⟨i, by omega, h2, h3⟩
  touched_op b := by
    rw [h'.touched_op, h.touched_op, or_assoc]
    exact or_congr_right (by omega)

/-- How many words a round of the loop mixes. -/
def step (channels : ℕ) : ℕ :=
  if channels > 1 then 2 else 1

/-- **The loop** mixes the words from `mixPtr` on, as many of them as a round does with each
word from `ringPtr` on. -/
theorem mix_mixed {n : ℕ} {mixPtr ringPtr : ℤ}
    (hg : ∀ i, mixPtr ≤ i → i < mixPtr + step channels * n →
      g i = ringPtr + (i - mixPtr) / step channels) :
    Mixed c m_MixVal g mixPtr (mixPtr + step channels * n) s
      (s.mix c channels m_MixVal n mixPtr ringPtr) := by
  induction n generalizing mixPtr ringPtr s with
  | zero =>
      rw [show mixPtr + step channels * ((0 : ℕ) : ℤ) = mixPtr by simp]
      exact .refl
  | succ n ih =>
      rw [step] at *
      rw [mix]
      split_ifs at * with hmore
      · push_cast at *
        have hg₀ : g mixPtr = ringPtr := (hg mixPtr (by omega) (by omega)).trans (by omega)
        have hg₁ : g (mixPtr + 1) = ringPtr := (hg _ (by omega) (by omega)).trans (by omega)
        have htwo : Mixed c m_MixVal g mixPtr (mixPtr + 2) s
            ((s.add c m_MixVal mixPtr ringPtr).add c m_MixVal (mixPtr + 1) ringPtr) := by
          rw [show mixPtr + 2 = mixPtr + 1 + 1 by omega]
          exact (Mixed.add hg₀).trans (.add hg₁) (by omega) (by omega)
        have hi : ∀ i, mixPtr + 2 ≤ i → i < mixPtr + 2 + 2 * n →
            g i = ringPtr + 1 + (i - (mixPtr + 2)) / 2 :=
          fun i h1 h2 => (hg i (by omega) (by omega)).trans (by omega)
        rw [show mixPtr + 2 * ((n : ℤ) + 1) = mixPtr + 2 + 2 * n by omega]
        exact htwo.trans (ih hi) (by omega) (by omega)
      · push_cast at *
        have hg₀ : g mixPtr = ringPtr := (hg mixPtr (by omega) (by omega)).trans (by omega)
        have hi : ∀ i, mixPtr + 1 ≤ i → i < mixPtr + 1 + 1 * n →
            g i = ringPtr + 1 + (i - (mixPtr + 1)) / 1 :=
          fun i h1 h2 => (hg i (by omega) (by omega)).trans (by omega)
        rw [show mixPtr + 1 * ((n : ℤ) + 1) = mixPtr + 1 + 1 * n by omega]
        exact (Mixed.add hg₀).trans (ih hi) (by omega) (by omega)

/-! ### Reading and writing the rings -/

/-- A ring is read to the end. -/
theorem read_all (rb : Ringbuffer α) :
    (rb.ringbuffer_read rb.ringbuffer_read_space).2 = rb.contents := by
  rw [(rb.ringbuffer_read_contents _).1, ← rb.length_contents, List.take_length]

/-- What was written of the mix, and what that did. -/
theorem sendMixed_spec (size : ℕ) (s : MuxCall α) :
    (s.sendMixed size).1.m_MixedRing.contents = s.m_MixedRing.contents ++
        s.m_MixBufferOperation.take (min size s.m_MixedRing.ringbuffer_write_space) ∧
      (s.sendMixed size).1.m_MixBuffer = s.m_MixBuffer ∧
      (s.sendMixed size).1.m_MixBufferOperation = s.m_MixBufferOperation.read 0
        (min size s.m_MixedRing.ringbuffer_write_space) ∧
      (s.sendMixed size).1.writes =
        s.writes ++ [(size, s.m_MixedRing.ringbuffer_write_space)] ∧
      (s.sendMixed size).1.cerr =
        if size ≤ s.m_MixedRing.ringbuffer_write_space then s.cerr
        else s.cerr ++ [.instead_of s.m_MixedRing.ringbuffer_write_space size] := by
  obtain ⟨hcount, hcontents, -⟩ :=
    s.m_MixedRing.ringbuffer_write_contents (s.m_MixBufferOperation.take size)
  rw [Cells.length_take] at hcount
  have htake : (s.m_MixBufferOperation.take size).take
      (min size s.m_MixedRing.ringbuffer_write_space) =
      s.m_MixBufferOperation.take (min size s.m_MixedRing.ringbuffer_write_space) := by
    refine List.ext_getElem? fun k => ?_
    rw [List.getElem?_take, Cells.getElem?_take, Cells.getElem?_take]
    split_ifs <;> first | rfl | omega
  rw [hcount, htake] at hcontents
  simp only [sendMixed, writeMixed, hcount]
  split_ifs with hshort hroom hroom
  · omega
  · rw [Nat.min_eq_right (Nat.le_of_not_le hroom)] at hcontents ⊢
    exact ⟨hcontents, rfl, rfl, rfl, rfl⟩
  · exact ⟨hcontents, rfl, rfl, rfl, rfl⟩
  · omega

/-- The call after both rings were read. -/
def loaded (c : FloatCodec R α) (e : Mixer α) : MuxCall α :=
  { start c e with
    first := (e.first.ringbuffer_read e.first.ringbuffer_read_space).1
    audio_mix_ring := (e.audio_mix_ring.ringbuffer_read e.audio_mix_ring.ringbuffer_read_space).1
    m_MixBuffer := (start c e).m_MixBuffer.write 0 e.first.contents
    m_MixBufferOperation := (start c e).m_MixBufferOperation.write 0 e.audio_mix_ring.contents }

variable {e : Mixer α}

theorem readFirst_eq {n : ℕ} (h : s.first.ringbuffer_read_space = n) : s.readFirst n =
    ({ s with
        first := (s.first.ringbuffer_read n).1
        m_MixBuffer := s.m_MixBuffer.write 0 s.first.contents }, n) := by
  subst h
  rw [readFirst, ringbuffer_read_to, read_all, length_contents]

theorem readVideo_eq {n : ℕ} (h : s.audio_mix_ring.ringbuffer_read_space = n) : s.readVideo n =
    ({ s with
        audio_mix_ring := (s.audio_mix_ring.ringbuffer_read n).1
        m_MixBufferOperation := s.m_MixBufferOperation.write 0 s.audio_mix_ring.contents }, n) := by
  subst h
  rw [readVideo, ringbuffer_read_to, read_all, length_contents]

/-- Reading an empty ring changes nothing. -/
theorem read_empty {rb : Ringbuffer α} (h : rb.ringbuffer_read_space = 0) :
    (rb.ringbuffer_read rb.ringbuffer_read_space).1 = rb ∧ rb.contents = [] := by
  refine ⟨by rw [ringbuffer_read, if_pos h], List.length_eq_zero_iff.mp ?_⟩
  rw [rb.length_contents, h]

/-- The loop from the start of both buffers. -/
theorem mix_start (c : FloatCodec R α) (channels : ℕ) (m_MixVal : R) (n : ℕ) :
    Mixed c m_MixVal (fun i => i / step channels) 0 (step channels * n : ℕ) s
      (s.mix c channels m_MixVal n 0 0) := by
  have hmix : Mixed c m_MixVal (fun i => i / step channels) 0 (0 + step channels * n) s
      (s.mix c channels m_MixVal n 0 0) :=
    mix_mixed fun i _ _ => by rw [Int.zero_add, Int.sub_zero]
  rwa [Int.zero_add, ← Int.natCast_mul] at hmix

theorem mix_ring (n : ℕ) :
    (s.mix c channels m_MixVal n 0 0).m_MixedRing = s.m_MixedRing :=
  (mix_start _ _ _ n).ring

/-! ### The cases of a call -/

variable (c channels m_MixVal)

/-- With something in both rings, as much is mixed as is in `audio_mix_ring`. -/
theorem Mux_both (hfirst : e.first.ringbuffer_read_space ≠ 0)
    (hvideo : e.audio_mix_ring.ringbuffer_read_space ≠ 0) :
    Mux c channels m_MixVal e =
      let t := (loaded c e).mix c channels m_MixVal
        (e.audio_mix_ring.ringbuffer_read_space / 4) 0 0
      if e.m_MixedRing.ringbuffer_write_space ≥ e.audio_mix_ring.ringbuffer_read_space then
        t.sendMixed e.audio_mix_ring.ringbuffer_read_space
      else (t.report .not_enough_memory, 0) := by
  simp only [Mux, if_pos hfirst, if_pos hvideo, start, readFirst_eq, readVideo_eq, ne_eq,
    not_true_eq_false, if_false, mix_ring]
  rfl

/-- With nothing in `audio_mix_ring`, what is in `first` goes to all channels. -/
theorem Mux_first (hfirst : e.first.ringbuffer_read_space ≠ 0)
    (hvideo : e.audio_mix_ring.ringbuffer_read_space = 0) :
    Mux c channels m_MixVal e =
      let t := (loaded c e).mix c channels m_MixVal (e.first.ringbuffer_read_space / 4) 0 0
      if e.m_MixedRing.ringbuffer_write_space ≥ e.first.ringbuffer_read_space then
        t.sendMixed (e.first.ringbuffer_read_space * channels)
      else (t, 0) := by
  have hload : loaded c e = { start c e with
      first := (e.first.ringbuffer_read e.first.ringbuffer_read_space).1
      m_MixBuffer := (start c e).m_MixBuffer.write 0 e.first.contents } := by
    rw [loaded, (read_empty hvideo).1, (read_empty hvideo).2, Cells.write]
    rfl
  rw [hload]
  simp only [Mux, if_pos hfirst, if_neg (not_not_intro hvideo), start, readFirst_eq, ne_eq,
    not_true_eq_false, if_false, mix_ring]
  rw [hvideo]

/-- With nothing in `first`, what is in `audio_mix_ring` is passed on. -/
theorem Mux_video (hfirst : e.first.ringbuffer_read_space = 0)
    (hvideo : e.audio_mix_ring.ringbuffer_read_space ≠ 0) :
    Mux c channels m_MixVal e =
      if e.m_MixedRing.ringbuffer_write_space ≥ e.audio_mix_ring.ringbuffer_read_space then
        (loaded c e).sendMixed e.audio_mix_ring.ringbuffer_read_space
      else (loaded c e, e.audio_mix_ring.ringbuffer_read_space) := by
  have hload : loaded c e = { start c e with
      audio_mix_ring :=
        (e.audio_mix_ring.ringbuffer_read e.audio_mix_ring.ringbuffer_read_space).1
      m_MixBufferOperation :=
        (start c e).m_MixBufferOperation.write 0 e.audio_mix_ring.contents } := by
    rw [loaded, (read_empty hfirst).1, (read_empty hfirst).2, Cells.write]
    rfl
  rw [hload]
  simp only [Mux, if_neg (not_not_intro hfirst), if_pos hvideo, start, readVideo_eq, ne_eq,
    not_true_eq_false, if_false]

/-- With nothing in both rings, nothing is written. -/
theorem Mux_none (hfirst : e.first.ringbuffer_read_space = 0)
    (hvideo : e.audio_mix_ring.ringbuffer_read_space = 0) :
    Mux c channels m_MixVal e = (start c e, 0) := by
  simp only [Mux, if_neg (not_not_intro hfirst), hvideo, ne_eq, not_true_eq_false, if_false]

/-! ### Rings with something in them -/

/-- Floats over integers, each byte with the whole value. -/
def intCodec : FloatCodec ℤ ℤ where
  encode x _ := x
  decode b := b 0
  decode_encode _ := rfl
  zero := 0
  decode_zero := rfl

/-- A ring of the encoder with some bytes in it. -/
def ringOf (bytes : List ℤ) : Ringbuffer ℤ :=
  ((ringbuffer_create (4096 * 512 * 4) fun _ => 0).ringbuffer_write bytes).1

theorem ringOf_spec (bytes : List ℤ) (h : bytes.length < 2 ^ 23) :
    (ringOf bytes).contents = bytes ∧ (ringOf bytes).size = 2 ^ 23 ∧
      (ringOf bytes).ringbuffer_write_space + bytes.length + 1 = 2 ^ 23 := by
  have hsize := OggAudio.size_create fun _ => (0 : ℤ)
  have hspace := (ringbuffer_create (4096 * 512 * 4) fun _ => (0 : ℤ)).write_space_add_read_space
  obtain ⟨hcount, hcontents, hsize'⟩ :=
    (ringbuffer_create (4096 * 512 * 4) fun _ => (0 : ℤ)).ringbuffer_write_contents bytes
  have hspace' := (ringOf bytes).write_space_add_read_space
  rw [hsize, read_space_create] at hspace
  rw [contents_create, hcount, List.nil_append, List.take_of_length_le (by omega)] at hcontents
  have hcontents' : (ringOf bytes).contents = bytes := hcontents
  rw [← length_contents, hcontents', ringOf, hsize', hsize] at hspace'
  exact ⟨hcontents, hsize'.trans hsize, hspace'⟩

/-- Rings with some samples and frames in them, and an empty `m_MixedRing`. -/
def mixerOf (first video mixed : List ℤ) : Mixer ℤ where
  first := ringOf first
  audio_mix_ring := ringOf video
  m_MixedRing := ringOf mixed
  m_MixBuffer _ := 0
  m_MixBufferOperation _ := 0

/-- The room in an empty ring. -/
theorem write_space_ringOf_nil : (ringOf []).ringbuffer_write_space = 2 ^ 23 - 1 := by
  have hspace := (ringOf_spec [] (by simp)).2.2
  rw [List.length_nil] at hspace
  omega

end MuxCall

end FreeJ
