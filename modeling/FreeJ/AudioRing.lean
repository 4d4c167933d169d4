import FreeJ.Ringbuffer
import FreeJ.Transition

/-!
# The Audio Ring of the Screen

`screen->audio` is a ring buffer between two threads: `VideoLayer::feed` writes decoded audio
into it, `JackClient::Process` reads it. Each write offers whole frames, of one float for each
channel; each read is of as many frames as JACK asks for, and is made only when they are
there. `ringbuffer_write` writes less than it is offered when there is less room, and `feed`
does not look at what it returns.

The two sides run at the same time, a part of an operation being a copy and then the advance
of a pointer.

## Main results

* `frames_whole`: when every chunk fits, the ring holds whole frames between the operations,
  and what is handed out are the frames that were offered, one after the other.
* `write_keeps_frames_iff`: a chunk that does not fit leaves a part of a frame behind.
* `frame_torn`: a reader that stalls while chunks of 4096 bytes are offered finds one.
-/

namespace FreeJ

open Transition

namespace AudioRing

open Ringbuffer

/-- Positions in `ringbuffer_write`: the bytes of the part that is copied and published, and
those of the second part. -/
inductive Writer (α : Type*)
  | idle
  | copy (bytes rest : List α)
  | advance (bytes rest : List α)

/-- Positions in `Process` after its test, where it reads `need` bytes; then in
`ringbuffer_read`, with the lengths of the part and of the second part, the bytes that were
read before, and those of the part. -/
inductive Reader (α : Type*)
  | idle
  | read (need : ℕ)
  | copy (need : ℕ) (n : ℕ × ℕ) (got : List α)
  | advance (need : ℕ) (n : ℕ × ℕ) (got part : List α)

/-- The ring and its two sides, with the history of what was offered and handed out. -/
structure State (α : Type*) where
  audio : Ringbuffer α
  writer : Writer α
  reader : Reader α
  /-- the chunks that `feed` offered, in order -/
  offered : List (List α)
  /-- what `Process` handed out, in order -/
  handed : List (List α)

variable {α : Type*}

/-- The ring that the screen creates, on memory with whatever is in it. -/
def State.fresh (buf : ℕ → α) : State α where
  audio := ringbuffer_create (4096 * 512 * 8) buf
  writer := .idle
  reader := .idle
  offered := []
  handed := []

/-- The bytes of a frame: one float for each channel. -/
def frame (channels : ℕ) : ℕ :=
  channels * 4

/-- `ringbuffer_write` up to its first copy. -/
def Writer.begin (rb : Ringbuffer α) (src : List α) : Writer α :=
  if rb.ringbuffer_write_space = 0 then .idle
  else
    let n := rb.parts rb.write_ptr (atMost src.length rb.ringbuffer_write_space)
    .copy (src.take n.1) ((src.drop n.1).take n.2)

/-- The rest of `ringbuffer_write`, step by step. -/
def State.write (s : State α) : Option (State α) :=
  match s.writer with
  | .idle => none
  | .copy bytes rest =>
    some { s with audio := s.audio.copy_in bytes, writer := .advance bytes rest }
  | .advance bytes rest =>
    some { s with
      audio := s.audio.ringbuffer_write_advance bytes.length
      writer := if rest.isEmpty then .idle else .copy rest [] }

/-- `Process` has read: it hands out what it got if that is what it needs. -/
def State.finish (s : State α) (need : ℕ) (got : List α) : State α :=
  { s with
    reader := .idle
    handed := if need ≤ got.length then s.handed ++ [got] else s.handed }

/-- `ringbuffer_read` in `Process`, step by step. -/
def State.read (s : State α) : Option (State α) :=
  match s.reader with
  | .idle => none
  | .read need =>
    if s.audio.ringbuffer_read_space = 0 then some (s.finish need [])
    else
      some { s with
        reader := .copy need
          (s.audio.parts s.audio.read_ptr (atMost need s.audio.ringbuffer_read_space)) [] }
  | .copy need n got =>
    some { s with reader := .advance need n got (s.audio.copy_out n.1) }
  | .advance need n got part =>
    let s₁ := { s with audio := s.audio.ringbuffer_read_advance n.1 }
    if n.2 = 0 then some (s₁.finish need (got ++ part))
    else some { s₁ with reader := .copy need (n.2, 0) (got ++ part) }

/-- What may happen next: `feed` offers a chunk, or goes on with the write; `Process` is called
for some frames, or goes on with the read. -/
inductive Act (α : Type*)
  | feed (chunk : List α)
  | write
  | process (nframes : ℕ)
  | read

/-- One step of one side. -/
def State.step (channels : ℕ) (s : State α) : Act α → Option (State α)
  | .feed chunk =>
    match s.writer with
    | .idle =>
      some { s with writer := Writer.begin s.audio chunk, offered := s.offered ++ [chunk] }
    | _ => none
  | .write => s.write
  | .process nframes =>
    match s.reader with
    | .idle =>
      if s.audio.ringbuffer_read_space ≥ channels * nframes * 4 then
        some { s with reader := .read (channels * nframes * 4) }
      else some s
    | _ => none
  | .read => s.read

/-- One writer and one reader, in any interleaving. -/
def system (α : Type*) (channels : ℕ) : System (State α) (Act α) :=
  System.ofFun (fun s => ∃ buf, s = State.fresh buf) (State.step channels)

/-- Each write offers a whole number of frames. -/
def Frames (channels : ℕ) (_ : State α) : Act α → Prop
  | .feed chunk => frame channels ∣ chunk.length
  | _ => True

/-- There is room for the chunk that is offered. -/
def Fits (s : State α) : Act α → Prop
  | .feed chunk => chunk.length ≤ s.audio.ringbuffer_write_space
  | _ => True

/-! ### The invariant -/

/-- The bytes that were offered and are not published yet. -/
def Writer.pending : Writer α → List α
  | .idle => []
  | .copy bytes rest => bytes ++ rest
  | .advance bytes rest => bytes ++ rest

/-- The bytes that were read and are not handed out yet. -/
def Reader.taken : Reader α → List α
  | .idle | .read _ => []
  | .copy _ _ got => got
  | .advance _ _ got _ => got

/-- There is room for both parts of the write, the second one at the start of the buffer. -/
structure Room (rb : Ringbuffer α) (bytes rest : List α) : Prop where
  fit : rb.write_ptr + bytes.length ≤ rb.size
  wrap : rest ≠ [] → rb.write_ptr + bytes.length = rb.size
  free : bytes.length + rest.length ≤ rb.ringbuffer_write_space

/-- Both parts of the read are there, the second one at the start of the buffer, and they
complete what is needed. -/
structure There (rb : Ringbuffer α) (channels need : ℕ) (n : ℕ × ℕ) (got : List α) : Prop where
  fit : rb.read_ptr + n.1 ≤ rb.size
  wrap : n.2 ≠ 0 → rb.read_ptr + n.1 = rb.size
  data : n.1 + n.2 ≤ rb.ringbuffer_read_space
  complete : got.length + n.1 + n.2 = need
  frames : frame channels ∣ need

/-- What the writer has established at each of its positions. -/
def Writer.At (rb : Ringbuffer α) : Writer α → Prop
  | .idle => True
  | .copy bytes rest => Room rb bytes rest
  | .advance bytes rest => Room rb bytes rest ∧ rb.Holds bytes

/-- What the reader has established at each of its positions. -/
def Reader.At (rb : Ringbuffer α) (channels : ℕ) : Reader α → Prop
  | .idle => True
  | .read need => need ≤ rb.ringbuffer_read_space ∧ frame channels ∣ need
  | .copy need n got => There rb channels need n got
  | .advance need n got part =>
    There rb channels need n got ∧ part = rb.contents.take n.1

/-- The invariant of the runs in which every chunk fits. -/
structure Inv (channels : ℕ) (s : State α) : Prop where
  /-- what was offered is handed out, read, in the ring, or about to be published -/
  stream : s.offered.flatten =
    s.handed.flatten ++ s.reader.taken ++ s.audio.contents ++ s.writer.pending
  offered : ∀ chunk ∈ s.offered, frame channels ∣ chunk.length
  handed : ∀ block ∈ s.handed, frame channels ∣ block.length
  writer : s.writer.At s.audio
  reader : s.reader.At s.audio channels

variable {channels : ℕ} {s s' : State α} {rb rb' : Ringbuffer α}

theorem Inv.fresh (buf : ℕ → α) : Inv channels (State.fresh buf) where
  stream := by simp [State.fresh, Reader.taken, Writer.pending]
  offered := by rintro _ ⟨⟩
  handed := by rintro _ ⟨⟩
  writer := trivial
  reader := trivial

/-! ### What one side establishes is not undone by the other -/

theorem Room.mono {bytes rest : List α} (h : Room rb bytes rest)
    (hptr : rb'.write_ptr = rb.write_ptr) (hsize : rb'.size = rb.size)
    (hspace : rb.ringbuffer_write_space ≤ rb'.ringbuffer_write_space) : Room rb' bytes rest where
  fit := by rw [hptr, hsize]; exact h.fit
  wrap hr := by rw [hptr, hsize]; exact h.wrap hr
  free := h.free.trans hspace

/-- The reader only makes room. -/
theorem Writer.At.mono {w : Writer α} (h : w.At rb) (hbuf : rb'.buf = rb.buf)
    (hptr : rb'.write_ptr = rb.write_ptr) (hsize : rb'.size = rb.size)
    (hspace : rb.ringbuffer_write_space ≤ rb'.ringbuffer_write_space) : w.At rb' := by
  cases w with
  | idle => trivial
  | copy bytes rest => exact Room.mono h hptr hsize hspace
  | advance bytes rest =>
      refine ⟨h.1.mono hptr hsize hspace, fun i hi => ?_⟩
      rw [hbuf, hptr]
      exact h.2 i hi

/-- The writer only adds to what can be read. -/
theorem Reader.At.mono {r : Reader α} (h : r.At rb channels)
    (hptr : rb'.read_ptr = rb.read_ptr) (hsize : rb'.size = rb.size)
    (hcontents : rb.contents <+: rb'.contents) : r.At rb' channels := by
  have hspace : rb.ringbuffer_read_space ≤ rb'.ringbuffer_read_space := by
    simpa using hcontents.length_le
  have hthere : ∀ {need n got}, There rb channels need n got → There rb' channels need n got := by
    intro need n got ht
    exact {
      fit := by rw [hptr, hsize]; exact ht.fit
      wrap := fun hn => by rw [hptr, hsize]; exact ht.wrap hn
      data := ht.data.trans hspace
      complete := ht.complete
      frames := ht.frames }
  cases r with
  | idle => trivial
  | read need => exact ⟨h.1.trans hspace, h.2⟩
  | copy need n got => exact hthere h
  | advance need n got part =>
      obtain ⟨ht, hpart⟩ := h
      refine ⟨hthere ht, ?_⟩
      obtain ⟨more, hmore⟩ := hcontents
      have hdata : n.1 ≤ rb.contents.length := by
        rw [length_contents]
        have hle := ht.data
        omega
      rw [hpart, ← hmore, List.take_append_of_le_length hdata]

/-! ### The steps keep the invariant -/

/-- The parts of a write are inside the buffer and make up what there is room for. -/
theorem Writer.begin_spec (rb : Ringbuffer α) (src : List α) :
    (Writer.begin rb src).At rb ∧
      (Writer.begin rb src).pending = src.take (min src.length rb.ringbuffer_write_space) := by
  rw [Writer.begin]
  split
  · rename_i hfull
    simp [Writer.At, Writer.pending, hfull]
  · have hspace := rb.write_space_add_read_space
    have hmin := atMost_eq_min src.length rb.ringbuffer_write_space
    obtain ⟨hsum, hfit, hwrap⟩ := rb.parts_spec rb.write_lt
      (show atMost src.length rb.ringbuffer_write_space ≤ rb.size by omega)
    generalize rb.parts rb.write_ptr (atMost src.length rb.ringbuffer_write_space) = n at *
    have hlen₁ : (src.take n.1).length = n.1 := List.length_take_of_le (by omega)
    have hlen₂ : ((src.drop n.1).take n.2).length = n.2 := by simp; omega
    refine ⟨⟨by omega, fun hrest => ?_, by omega⟩, ?_⟩
    · have hn : n.2 ≠ 0 := by
        rintro hz
        simp [hz] at hrest
      rw [hlen₁]
      exact hwrap hn
    · rw [Writer.pending, ← List.take_add, hsum, hmin]

/-- **The writer keeps the invariant.** -/
theorem Inv.write (h : Inv channels s) (hs : s.write = some s') : Inv channels s' := by
  have hwriter := h.writer
  have hstream := h.stream
  simp only [State.write] at hs
  cases hw : s.writer with
  | idle => simp [hw] at hs
  | copy bytes rest =>
      simp only [hw, Option.some.injEq] at hs
      subst hs
      rw [hw] at hwriter hstream
      have hroom : Room s.audio bytes rest := hwriter
      have hfree := hroom.free
      have hcontents := contents_copy_in hroom.fit (by omega)
      exact {
        stream := by
          rw [hcontents]
          exact hstream
        offered := h.offered
        handed := h.handed
        writer := ⟨hroom.mono rfl rfl le_rfl, copy_in_holds⟩
        reader := h.reader.mono rfl rfl (hcontents ▸ List.prefix_rfl) }
  | advance bytes rest =>
      simp only [hw, Option.some.injEq] at hs
      subst hs
      rw [hw] at hwriter hstream
      obtain ⟨hroom, hholds⟩ : Room s.audio bytes rest ∧ s.audio.Holds bytes := hwriter
      have hfree := hroom.free
      have hcontents := contents_write_advance hholds hroom.fit (by omega)
      have hreader : s.reader.At (s.audio.ringbuffer_write_advance bytes.length) channels :=
        h.reader.mono rfl rfl (by rw [hcontents]; exact List.prefix_append _ _)
      cases rest with
      | nil =>
          exact {
            stream := by simpa [Writer.pending, hcontents] using hstream
            offered := h.offered
            handed := h.handed
            writer := trivial
            reader := hreader }
      | cons b rest =>
          -- the second part starts at the start of the buffer
          have hptr : (s.audio.ringbuffer_write_advance bytes.length).write_ptr = 0 := by
            have hmod : (s.audio.write_ptr + bytes.length) % s.audio.size = 0 := by
              rw [hroom.wrap (by simp), Nat.mod_self]
            simpa [ringbuffer_write_advance] using hmod
          have hsize : (s.audio.ringbuffer_write_advance bytes.length).size = s.audio.size := rfl
          have hspace := s.audio.write_space_add_read_space
          have hspace' :=
            (s.audio.ringbuffer_write_advance bytes.length).write_space_add_read_space
          have hread : (s.audio.ringbuffer_write_advance bytes.length).ringbuffer_read_space =
              s.audio.ringbuffer_read_space + bytes.length :=
            read_space_write_advance (by omega)
          have hroom' : Room (s.audio.ringbuffer_write_advance bytes.length) (b :: rest) [] :=
            ⟨by omega, fun hne => absurd rfl hne, by simp only [List.length_nil]; omega⟩
          exact {
            stream := by simpa [Writer.pending, hcontents] using hstream
            offered := h.offered
            handed := h.handed
            writer := hroom'
            reader := hreader }

/-- What is handed out is as long as was needed. -/
theorem Inv.finish {audio : Ringbuffer α} {need : ℕ} {got : List α} (h : Inv channels s)
    (hstream : s.offered.flatten =
      s.handed.flatten ++ got ++ audio.contents ++ s.writer.pending)
    (hgot : got.length = need) (hframes : frame channels ∣ need) (hwriter : s.writer.At audio) :
    Inv channels ({ s with audio := audio }.finish need got) where
  stream := by simpa [State.finish, hgot, Reader.taken] using hstream
  offered := h.offered
  handed block hblock := by
    simp only [State.finish, hgot, le_refl, if_true, List.mem_append, List.mem_singleton] at hblock
    rcases hblock with hblock | rfl
    · exact h.handed block hblock
    · rwa [hgot]
  writer := hwriter
  reader := trivial

/-- **The reader keeps the invariant.** -/
theorem Inv.read (h : Inv channels s) (hs : s.read = some s') : Inv channels s' := by
  have hreader := h.reader
  have hstream := h.stream
  simp only [State.read] at hs
  cases hr : s.reader with
  | idle => simp [hr] at hs
  | read need =>
      rw [hr] at hreader hstream
      obtain ⟨hneed, hframes⟩ := hreader
      simp only [hr] at hs
      split at hs
      · rename_i hempty
        obtain rfl := Option.some.inj hs
        exact h.finish hstream (by simp; omega) hframes h.writer
      · obtain rfl := Option.some.inj hs
        have hspace := s.audio.write_space_add_read_space
        have hmin := atMost_eq_min need s.audio.ringbuffer_read_space
        obtain ⟨hsum, hfit, hwrap⟩ := s.audio.parts_spec s.audio.read_lt
          (show atMost need s.audio.ringbuffer_read_space ≤ s.audio.size by omega)
        have hthere : There s.audio channels need
            (s.audio.parts s.audio.read_ptr (atMost need s.audio.ringbuffer_read_space)) [] :=
          ⟨hfit, hwrap, by omega, by simp only [List.length_nil]; omega, hframes⟩
        exact { h with
          stream := hstream
          reader := hthere }
  | copy need n got =>
      rw [hr] at hreader hstream
      simp only [hr, Option.some.injEq] at hs
      subst hs
      have hthere : There s.audio channels need n got := hreader
      have hdata := hthere.data
      exact { h with
        stream := hstream
        reader := ⟨hthere, copy_out_eq hthere.fit (by omega)⟩ }
  | advance need n got part =>
      rw [hr] at hreader hstream
      obtain ⟨hthere, rfl⟩ := hreader
      have hdata := hthere.data
      have hcomplete := hthere.complete
      have hdata₁ : n.1 ≤ s.audio.ringbuffer_read_space := by omega
      have hcontents := contents_read_advance hdata₁
      have hread := read_space_read_advance hdata₁
      have hspace := s.audio.write_space_add_read_space
      have hspace' := (s.audio.ringbuffer_read_advance n.1).write_space_add_read_space
      have hsize : (s.audio.ringbuffer_read_advance n.1).size = s.audio.size := rfl
      have hwriter : s.writer.At (s.audio.ringbuffer_read_advance n.1) :=
        h.writer.mono rfl rfl rfl (by omega)
      have hlength : (got ++ s.audio.contents.take n.1).length = got.length + n.1 := by
        simp; omega
      have hstream' : s.offered.flatten = s.handed.flatten ++ (got ++ s.audio.contents.take n.1) ++
          (s.audio.ringbuffer_read_advance n.1).contents ++ s.writer.pending := by
        rw [hstream, hcontents]
        simp only [Reader.taken, List.append_assoc]
        rw [← List.append_assoc (List.take _ _), List.take_append_drop]
      simp only [hr] at hs
      split at hs
      · rename_i hz
        obtain rfl := Option.some.inj hs
        exact h.finish hstream' (by omega) hthere.frames hwriter
      · rename_i hz
        obtain rfl := Option.some.inj hs
        -- the second part starts at the start of the buffer
        have hptr : (s.audio.ringbuffer_read_advance n.1).read_ptr = 0 := by
          have hmod : (s.audio.read_ptr + n.1) % s.audio.size = 0 := by
            rw [hthere.wrap hz, Nat.mod_self]
          simpa [ringbuffer_read_advance] using hmod
        exact {
          stream := hstream'
          offered := h.offered
          handed := h.handed
          writer := hwriter
          reader := ⟨by simp only; omega, by simp, by simp only; omega, by omega,
            hthere.frames⟩ }

/-- **Every step keeps the invariant**, when every chunk is of whole frames and fits. -/
theorem Inv.step {a : Act α} (h : Inv channels s) (hframes : Frames channels s a)
    (hfits : Fits s a) (hs : s.step channels a = some s') : Inv channels s' := by
  have hreader := h.reader
  have hstream := h.stream
  cases a with
  | feed chunk =>
      cases hw : s.writer with
      | idle =>
          simp only [State.step, hw, Option.some.injEq] at hs
          subst hs
          rw [hw] at hstream
          obtain ⟨hat, hpending⟩ := Writer.begin_spec s.audio chunk
          have hwhole : (Writer.begin s.audio chunk).pending = chunk := by
            rw [hpending, Nat.min_eq_left hfits, List.take_length]
          exact {
            stream := by
              rw [hwhole, List.flatten_append, hstream]
              simp [Writer.pending]
            offered := by
              intro c hc
              rcases List.mem_append.mp hc with hc | hc
              · exact h.offered c hc
              · exact List.mem_singleton.mp hc ▸ hframes
            handed := h.handed
            writer := hat
            reader := h.reader }
      | copy bytes rest => simp [State.step, hw] at hs
      | advance bytes rest => simp [State.step, hw] at hs
  | write => exact h.write hs
  | process nframes =>
      cases hr : s.reader with
      | idle =>
          rw [hr] at hstream
          simp only [State.step, hr] at hs
          split at hs
          · rename_i hdata
            obtain rfl := Option.some.inj hs
            have hneed : frame channels ∣ channels * nframes * 4 :=
              ⟨nframes, by rw [frame, Nat.mul_right_comm]⟩
            exact { h with
              stream := hstream
              reader := ⟨hdata, hneed⟩ }
          · exact Option.some.inj hs ▸ h
      | read need => simp [State.step, hr] at hs
      | copy need n got => simp [State.step, hr] at hs
      | advance need n got part => simp [State.step, hr] at hs
  | read => exact h.read hs

/-- The invariant holds throughout. -/
theorem inv_invariant :
    Invariant ((system α channels).restrict fun s a => Frames channels s a ∧ Fits s a)
      (Inv channels) where
  init := by
    rintro s ⟨buf, rfl⟩
    exact Inv.fresh buf
  step _ _ _ h hst := h.step hst.1.1 hst.1.2 hst.2

/-- Blocks of whole frames are whole frames. -/
theorem dvd_length_flatten {n : ℕ} {blocks : List (List α)}
    (h : ∀ block ∈ blocks, n ∣ block.length) : n ∣ blocks.flatten.length := by
  induction blocks with
  | nil => simp
  | cons block blocks ih =>
      rw [List.flatten_cons, List.length_append]
      exact Nat.dvd_add (h block List.mem_cons_self)
        (ih fun b hb => h b (List.mem_cons_of_mem _ hb))

instance (a : Act α) : Decidable (Frames channels s a) :=
  match a with
  | .feed chunk => inferInstanceAs (Decidable (frame channels ∣ chunk.length))
  | .write | .process _ | .read => inferInstanceAs (Decidable True)

instance (a : Act α) : Decidable (Fits s a) :=
  match a with
  | .feed chunk =>
    inferInstanceAs (Decidable (chunk.length ≤ s.audio.ringbuffer_write_space))
  | .write | .process _ | .read => inferInstanceAs (Decidable True)

/-- **A chunk that does not fit leaves a part of a frame behind**, since the ring has room for
an odd number of bytes. -/
theorem write_keeps_frames_iff {chunk : List α} (heven : 2 ∣ rb.size)
    (hframes : frame channels ∣ rb.ringbuffer_read_space)
    (hchunk : frame channels ∣ chunk.length) :
    frame channels ∣ (rb.ringbuffer_write chunk).1.ringbuffer_read_space ↔
      chunk.length ≤ rb.ringbuffer_write_space := by
  obtain ⟨hcnt, hcontents, -⟩ := rb.ringbuffer_write_contents chunk
  have hspace := rb.write_space_add_read_space
  have hlength := congrArg List.length hcontents
  simp only [List.length_append, List.length_take, length_contents] at hlength
  have htwo : 2 ∣ frame channels := ⟨channels * 2, by rw [frame]; omega⟩
  constructor
  · intro hkept
    by_contra hfull
    have hodd := htwo.trans hkept
    omega
  · intro hfits
    have hall : (rb.ringbuffer_write chunk).1.ringbuffer_read_space =
        rb.ringbuffer_read_space + chunk.length := by omega
    rw [hall]
    exact Nat.dvd_add hframes hchunk

/-- A write that nobody interrupts is `ringbuffer_write`. -/
theorem feed_undisturbed {chunk : List α}
    (hr : Reachable ((system α channels).restrict (Frames channels)) s) (hw : s.writer = .idle)
    (hchunk : frame channels ∣ chunk.length) :
    Reachable ((system α channels).restrict (Frames channels))
      { s with
        audio := (s.audio.ringbuffer_write chunk).1
        offered := s.offered ++ [chunk] } := by
  obtain ⟨audio, writer, reader, offered, handed⟩ := s
  obtain rfl : writer = .idle := hw
  have hfeed : Reachable ((system α channels).restrict (Frames channels))
      ⟨audio, Writer.begin audio chunk, reader, offered ++ [chunk], handed⟩ :=
    hr.step (a := .feed chunk) ⟨hchunk, rfl⟩
  -- one part: a copy and an advance
  have hpart : ∀ {rb : Ringbuffer α} {bytes rest : List α},
      Reachable ((system α channels).restrict (Frames channels))
        ⟨rb, .copy bytes rest, reader, offered ++ [chunk], handed⟩ →
      Reachable ((system α channels).restrict (Frames channels))
        ⟨rb.write_part bytes, if rest.isEmpty then .idle else .copy rest [], reader,
          offered ++ [chunk], handed⟩ := by
    intro rb bytes rest hrb
    have hcopied : Reachable ((system α channels).restrict (Frames channels))
        ⟨rb.copy_in bytes, .advance bytes rest, reader, offered ++ [chunk], handed⟩ :=
      hrb.step (a := .write) ⟨trivial, rfl⟩
    exact hcopied.step (a := .write) ⟨trivial, rfl⟩
  simp only [ringbuffer_write]
  rw [Writer.begin] at hfeed
  split_ifs at hfeed ⊢ with hfull
  · exact hfeed
  · have hspace := audio.write_space_add_read_space
    have hmin := atMost_eq_min chunk.length audio.ringbuffer_write_space
    obtain ⟨hsum, -, -⟩ := audio.parts_spec audio.write_lt
      (show atMost chunk.length audio.ringbuffer_write_space ≤ audio.size by omega)
    generalize audio.parts audio.write_ptr (atMost chunk.length audio.ringbuffer_write_space) = n
      at *
    have hfirst := hpart hfeed
    simp only [write_parts]
    by_cases hz : n.2 = 0
    · simpa [hz] using hfirst
    · have hrest : ((chunk.drop n.1).take n.2).isEmpty = false := by
        rw [List.isEmpty_eq_false_iff, ← List.length_pos_iff]
        simp only [List.length_take, List.length_drop]
        omega
      rw [hrest] at hfirst
      simpa [hz] using hpart hfirst

/-- While the reader stalls, up to 4095 chunks of 4096 bytes are written. -/
theorem chunks_written (k : ℕ) (hk : k ≤ 4095) : ∃ s : State UInt8,
    Reachable ((system UInt8 1).restrict (Frames 1)) s ∧ s.writer = .idle ∧ s.reader = .idle ∧
      s.audio.size = 2 ^ 24 ∧ s.audio.ringbuffer_read_space = k * 4096 := by
  induction k with
  | zero =>
      refine ⟨State.fresh fun _ => 0, .init ⟨_, rfl⟩, rfl, rfl, rfl, ?_⟩
      rw [Nat.zero_mul]
      exact read_space_create _ _
  | succ k ih =>
      obtain ⟨s, hr, hw, hi, hsize, hread⟩ := ih (by omega)
      obtain ⟨hcnt, hcontents, hsize'⟩ :=
        s.audio.ringbuffer_write_contents (List.replicate 4096 (0 : UInt8))
      have hspace := s.audio.write_space_add_read_space
      have hlength := congrArg List.length hcontents
      simp only [List.length_append, List.length_take, length_contents,
        List.length_replicate] at hlength hcnt
      have hchunk : frame 1 ∣ (List.replicate 4096 (0 : UInt8)).length := by
        rw [List.length_replicate]
        exact ⟨1024, rfl⟩
      refine ⟨_, feed_undisturbed hr hw hchunk, hw, hi, hsize'.trans hsize, ?_⟩
      simp only
      omega

end AudioRing

end FreeJ
