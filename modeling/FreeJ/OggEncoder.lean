import FreeJ.EncoderLoop
import FreeJ.OggFile

/-!
# The Pipe of an Ogg Theora Encoder

The pages of an `OggTheoraEncoder` go through the pipe of `VideoEncoder` into the file. The
thread that writes to the pipe is the one that empties it after each frame, so that it waits
for ever if there is too little room.

## Main results

* `VideoEncoder.lifetime_isSome_iff`: when a pipe does not block.
* `ogg_file`: an encoder hangs when the pages of a frame do not fit into the pipe; otherwise the
  file has all the pages as soon as one frame was encoded, and before that none.
-/

namespace FreeJ

namespace VideoEncoder

open Ringbuffer

variable {α : Type*} {e e' : VideoEncoder α} {rb rb' : Ringbuffer α} {waiting file : List α}
  {encbuf : Option ℕ} {writes headers trailer : List (List α)} {passes : List (Pass α)}
  {pass : Pass α}

/-- Writes do not wait when there is room for all of them. -/
theorem writes_isSome (writes : List (List α)) (rb : Ringbuffer α) :
    (writes.foldlM ogg_pipe_write rb).isSome ↔
      writes.flatten.length ≤ rb.ringbuffer_write_space := by
  induction writes generalizing rb with
  | nil => simp
  | cons src writes ih =>
      rw [List.foldlM_cons, List.flatten_cons, List.length_append]
      cases hwrite : ogg_pipe_write rb src with
      | none =>
          have hfull := EncoderThread.ogg_pipe_write_none.mp hwrite
          simp only [Option.bind_eq_bind, Option.bind_none, Option.isSome_none, Bool.false_eq_true,
            false_iff]
          omega
      | some rb₁ =>
          obtain ⟨hspace, -⟩ := EncoderThread.write_space_pipe_write hwrite
          simp only [Option.bind_eq_bind, Option.bind_some, ih rb₁]
          omega

theorem size_writes (h : writes.foldlM ogg_pipe_write rb = some rb') : rb'.size = rb.size := by
  induction writes generalizing rb with
  | nil =>
      obtain rfl : rb = rb' := by simpa using h
      rfl
  | cons src writes ih =>
      rw [List.foldlM_cons] at h
      obtain ⟨rb₁, h₁, h⟩ := Option.bind_eq_some_iff.mp h
      rw [ih h, (EncoderThread.write_space_pipe_write h₁).2]

/-- One byte of the pipe is never used. -/
theorem pipe_isSome (writes : List (List α)) (e : VideoEncoder α) :
    (e.pipe writes).isSome ↔
      (e.ringbuffer.contents ++ writes.flatten).length < e.ringbuffer.size := by
  have hspace := e.ringbuffer.write_space_add_read_space
  rw [pipe, Option.isSome_map, writes_isSome, List.length_append, length_contents]
  omega

theorem size_pipe (h : e.pipe writes = some e') : e'.ringbuffer.size = e.ringbuffer.size := by
  obtain ⟨rb, hrb, rfl⟩ := Option.map_eq_some_iff.mp h
  exact size_writes hrb

theorem size_thread_loop (h : e.thread_loop pass = some e') :
    e'.ringbuffer.size = e.ringbuffer.size := by
  cases pass with
  | none =>
      obtain rfl := Option.some.inj h
      rfl
  | some writes =>
      obtain ⟨e₁, h₁, rfl⟩ := Option.map_eq_some_iff.mp h
      exact (EncoderThread.drain_space e₁).1.trans (size_pipe h₁)

/-- **The passes** do not block when what each of them finds fits into the pipe. -/
theorem passes_isSome (h : Piped e waiting file encbuf) (passes : List (Pass α)) :
    (passes.foldlM thread_loop e).isSome ↔
      ∀ batch ∈ batches waiting passes, batch.length < e.ringbuffer.size := by
  induction passes generalizing e waiting file encbuf with
  | nil => simp [batches]
  | cons pass passes ih =>
      rw [List.foldlM_cons]
      cases pass with
      | none => exact ih h
      | some writes =>
          have hpass : (e.thread_loop (some writes)).isSome ↔
              (waiting ++ writes.flatten).length < e.ringbuffer.size := by
            rw [EncoderThread.thread_loop_eq, Option.isSome_map, pipe_isSome, h.waiting]
          rw [batches, List.forall_mem_cons]
          cases hloop : e.thread_loop (some writes) with
          | none =>
              rw [hloop] at hpass
              simp only [Option.isSome_none, Bool.false_eq_true, false_iff] at hpass
              simp only [Option.bind_eq_bind, Option.bind_none, Option.isSome_none,
                Bool.false_eq_true, false_iff]
              exact fun hfits => hpass hfits.1
          | some e₁ =>
              rw [hloop] at hpass
              have hrest := ih (thread_loop_piped h hloop)
              rw [size_thread_loop hloop] at hrest
              simp only [Option.bind_eq_bind, Option.bind_some, hrest]
              exact (and_iff_right (hpass.mp rfl)).symm

theorem size_passes (h : passes.foldlM thread_loop e = some e') :
    e'.ringbuffer.size = e.ringbuffer.size := by
  induction passes generalizing e with
  | nil =>
      obtain rfl : e = e' := by simpa using h
      rfl
  | cons pass passes ih =>
      rw [List.foldlM_cons] at h
      obtain ⟨e₁, h₁, h⟩ := Option.bind_eq_some_iff.mp h
      rw [ih h, size_thread_loop h₁]

/-- What waits is in the first batch, or it is left. -/
theorem exists_batch_of_waiting (waiting rest : List α) (passes : List (Pass α)) :
    ∃ batch ∈ batches waiting passes ++ [left waiting passes ++ rest],
      waiting.length ≤ batch.length := by
  induction passes with
  | nil => exact ⟨waiting ++ rest, by simp [batches, left], by simp⟩
  | cons pass passes ih =>
      cases pass with
      | none => exact ih
      | some writes => exact ⟨waiting ++ writes.flatten, by simp [batches], by simp⟩

/-- The bytes for which there is room in the pipe. -/
def room : ℕ := 2 ^ 22 - 1

theorem size_fresh (buf : ℕ → α) (write_to_stream : Bool) :
    (fresh buf write_to_stream).ringbuffer.size = room + 1 := rfl

/-- **An encoder does not block** exactly when what a pass finds, and what is left to the
destructor, always fits into the pipe. -/
theorem lifetime_isSome_iff (buf : ℕ → α) (write_to_stream : Bool) (headers : List (List α))
    (passes : List (Pass α)) (trailer : List (List α)) :
    (lifetime buf write_to_stream headers passes trailer).isSome ↔
      ∀ batch ∈ batches headers.flatten passes ++ [leftover headers passes trailer],
        batch.length ≤ room := by
  have hfresh : Piped (fresh buf write_to_stream) [] [] none :=
    ⟨contents_create _ _, rfl, rfl, rfl, rfl⟩
  have hpipe := pipe_isSome headers (fresh buf write_to_stream)
  rw [hfresh.waiting, size_fresh, List.nil_append, Nat.lt_succ_iff] at hpipe
  rw [lifetime, Option.isSome_map]
  cases h₁ : (fresh buf write_to_stream).pipe headers with
  | none =>
      rw [h₁] at hpipe
      simp only [Option.isSome_none, Bool.false_eq_true, false_iff, Nat.not_le] at hpipe
      simp only [Option.bind_none, Option.isSome_none, Bool.false_eq_true, false_iff]
      intro hfits
      obtain ⟨batch, hmem, hle⟩ :=
        exists_batch_of_waiting headers.flatten trailer.flatten passes
      exact absurd (hle.trans (hfits batch hmem)) (Nat.not_le.mpr hpipe)
  | some e₁ =>
      have hp₁ := hfresh.pipe h₁
      have hsize₁ : e₁.ringbuffer.size = room + 1 := size_pipe h₁
      have hpasses := passes_isSome hp₁ passes
      rw [List.nil_append] at hp₁ hpasses
      simp only [hsize₁, Nat.lt_succ_iff] at hpasses
      rw [List.forall_mem_append, List.forall_mem_singleton, ← hpasses, Option.bind_some]
      cases h₂ : passes.foldlM thread_loop e₁ with
      | none => simp
      | some e₂ =>
          have hp₂ := passes_piped hp₁ h₂
          have hsize₂ : e₂.ringbuffer.size = room + 1 := (size_passes h₂).trans hsize₁
          rw [Option.bind_some, pipe_isSome, hp₂.waiting, hsize₂, Nat.lt_succ_iff]
          exact (and_iff_right rfl).symm

end VideoEncoder

variable {S G : Type*}

namespace OggMux

variable {L : Libogg S G} {info : OggMux S G} {ps : List (Option OggFrame)}

variable (L) in
/-- The writes of `oggmux_init`: of each page the header and the body. -/
def headerWrites (pages : List G) : List (List CHAR) :=
  pages.flatMap fun g => [L.header g, L.body g]

variable (L) in
/-- The passes of the thread, each of which encodes a frame or finds no surface. -/
def passes (info : OggMux S G) : List (Option OggFrame) → List (Pass CHAR)
  | [] => []
  | none :: ps => none :: passes info ps
  | some f :: ps =>
    some ((encode_frame L info f).2.map (bytes L)) :: passes (encode_frame L info f).1 ps

variable (L) in
/-- The life of an encoder with its pipe, which writes to a file. -/
def encoder_life (buf : ℕ → CHAR) (write_to_stream : Bool)
    (serials : BitVec 32 × BitVec 32 × BitVec 32) (c : Codecs) (info : OggMux S G)
    (ps : List (Option OggFrame)) : Option (Pages G × VideoEncoder CHAR) :=
  (oggmux_init L serials c info).bind fun r =>
    let frames := encode_frames L r.1 (ps.filterMap id)
    let trailer := (oggmux_flush L frames.1 true).2
    (VideoEncoder.lifetime buf write_to_stream (headerWrites L r.2) (passes L r.1 ps)
      (trailer.map (bytes L))).map fun e => (⟨r.2, frames.2, trailer⟩, e)

theorem headerWrites_flatten (pages : List G) :
    (headerWrites L pages).flatten = pages.flatMap (bytes L) := by
  induction pages with
  | nil => rfl
  | cons g pages ih =>
      have hcons : headerWrites L (g :: pages) =
          [L.header g, L.body g] ++ headerWrites L pages := rfl
      rw [hcons, List.flatten_append, ih]
      simp [bytes]

/-- The passes write the pages of the frames. -/
theorem passes_written (info : OggMux S G) (ps : List (Option OggFrame)) :
    VideoEncoder.written (passes L info ps) =
      (encode_frames L info (ps.filterMap id)).2.flatten.flatMap (bytes L) := by
  induction ps generalizing info with
  | nil => rfl
  | cons pass ps ih =>
      cases pass with
      | none => exact ih info
      | some f =>
          simp only [passes, VideoEncoder.written, ih, List.filterMap_cons, id_eq, encode_frames,
            List.flatten_cons, List.flatMap_append]
          rfl

/-- Without a frame they find nothing. -/
theorem passes_idle (h : ps.filterMap id = []) (info : OggMux S G) (waiting : List CHAR) :
    VideoEncoder.batches waiting (passes L info ps) = [] := by
  induction ps with
  | nil => rfl
  | cons pass ps ih =>
      cases pass with
      | none => exact ih h
      | some f => simp at h

/-- With one they leave nothing behind. -/
theorem passes_left (h : ps.filterMap id ≠ []) (info : OggMux S G) (waiting : List CHAR) :
    VideoEncoder.left waiting (passes L info ps) = [] := by
  induction ps generalizing info waiting with
  | nil => exact absurd rfl h
  | cons pass ps ih =>
      cases pass with
      | none => exact ih h info waiting
      | some f =>
          by_cases hps : ps.filterMap id = []
          · -- it was the last frame
            have hrest (info : OggMux S G) : VideoEncoder.left [] (passes L info ps) = [] := by
              clear ih h
              induction ps with
              | nil => rfl
              | cons pass ps ih =>
                  cases pass with
                  | none => exact ih hps
                  | some f => simp at hps
            exact hrest _
          · exact ih hps _ []

/-- The first frame finds the headers. -/
theorem passes_batch (h : ps.filterMap id ≠ []) (info : OggMux S G) {waiting : List CHAR}
    (hw : waiting ≠ []) :
    ∃ batch, VideoEncoder.lastBatch (VideoEncoder.batches waiting (passes L info ps)) =
      some batch := by
  have hne : ∃ batch ∈ VideoEncoder.batches waiting (passes L info ps), batch ≠ [] := by
    induction ps with
    | nil => exact absurd rfl h
    | cons pass ps ih =>
        cases pass with
        | none => exact ih h
        | some f => exact ⟨_, List.mem_cons_self, fun hnil => hw (List.append_eq_nil_iff.mp hnil).1⟩
  obtain ⟨batch, hmem, hbatch⟩ := hne
  cases hlast : VideoEncoder.lastBatch (VideoEncoder.batches waiting (passes L info ps)) with
  | some batch => exact ⟨batch, rfl⟩
  | none =>
      have hnil := List.getLast?_eq_none_iff.mp hlast
      have hin : batch ∈ (VideoEncoder.batches waiting (passes L info ps)).filter
          fun batch => !batch.isEmpty := by
        rw [List.mem_filter]
        exact ⟨hmem, by simpa using hbatch⟩
      rw [hnil] at hin
      exact absurd hin List.not_mem_nil

/-- The pages that are in the pipe at the same time: those of a frame, and the headers with those
of the first one. -/
def Pages.together (p : Pages G) : List (List G) :=
  match p.frames with
  | [] => [p.header]
  | pages :: frames => (p.header ++ pages) :: frames

/-- What the passes find is the pages of the frames, the first ones with what was there before,
and they leave nothing but that. -/
theorem batches_passes (info : OggMux S G) (ps : List (Option OggFrame)) (waiting : List CHAR) :
    VideoEncoder.batches waiting (passes L info ps) ++
        [VideoEncoder.left waiting (passes L info ps)] =
      match (encode_frames L info (ps.filterMap id)).2 with
      | [] => [waiting]
      | pages :: frames =>
        (waiting ++ pages.flatMap (bytes L)) :: (frames.map (List.flatMap (bytes L)) ++ [[]]) := by
  induction ps generalizing info waiting with
  | nil => rfl
  | cons pass ps ih =>
      cases pass with
      | none => exact ih info waiting
      | some f =>
          have hrest := ih (encode_frame L info f).1 []
          have hfilter : (some f :: ps).filterMap id = f :: ps.filterMap id := rfl
          simp only [passes, VideoEncoder.batches, VideoEncoder.left, hfilter, encode_frames,
            List.cons_append, hrest]
          cases (encode_frames L (encode_frame L info f).1 (ps.filterMap id)).2 <;>
            simp [List.flatMap]

/-- What goes through the pipe fits into it or does not. -/
theorem encoder_life_none_iff {serials : BitVec 32 × BitVec 32 × BitVec 32} {c : Codecs}
    {last : OggMux S G} {p : Pages G} (buf : ℕ → CHAR) (write_to_stream : Bool)
    (hlife : lifetime L serials c info (ps.filterMap id) = some (last, p))
    (htrailer : p.trailer = []) :
    encoder_life L buf write_to_stream serials c info ps = none ↔
      ∃ pages ∈ p.together, VideoEncoder.room < (pages.flatMap (bytes L)).length := by
  obtain ⟨r, hinit, hpair⟩ := Option.map_eq_some_iff.mp hlife
  obtain ⟨-, rfl⟩ := Prod.mk.inj hpair
  have hroom := VideoEncoder.lifetime_isSome_iff buf write_to_stream (headerWrites L r.2)
    (passes L r.1 ps) []
  rw [VideoEncoder.leftover, List.flatten_nil, List.append_nil, batches_passes,
    headerWrites_flatten] at hroom
  have hlast : (oggmux_flush L (encode_frames L r.1 (ps.filterMap id)).1 true).2 = [] := htrailer
  simp only [encoder_life, hinit, Option.bind_some, hlast, List.map_nil, Option.map_eq_none_iff]
  rw [← Option.not_isSome_iff_eq_none, hroom, ← not_iff_not, not_not, Pages.together]
  cases (encode_frames L r.1 (ps.filterMap id)).2 with
  | nil => simp
  | cons pages frames =>
      simp only [List.forall_mem_cons, List.forall_mem_append, List.forall_mem_map,
        List.not_mem_nil, false_implies, implies_true, and_true, List.length_nil, Nat.zero_le,
        not_exists, not_and, Nat.not_lt, List.flatMap_append]

end OggMux

open OggMux

variable (L : Libogg S G) (serials : BitVec 32 × BitVec 32 × BitVec 32) (c : Codecs)
  (use_audio : Bool) (sample_rate : BitVec 32) (s : S)

/-- What a life with its pipe leaves: the pages, in the file as soon as there was a frame. -/
theorem encoder_life_result {buf : ℕ → CHAR} {write_to_stream : Bool}
    {ps : List (Option OggFrame)} {last : OggMux S G} {p p' : Pages G} {e : VideoEncoder CHAR}
    (hlife : OggMux.lifetime L serials c (start use_audio sample_rate s) (ps.filterMap id) =
      some (last, p)) (htrailer : p.trailer = []) (hheader : p.header ≠ [])
    (hrun : encoder_life L buf write_to_stream serials c (start use_audio sample_rate s) ps =
      some (p', e)) :
    p' = p ∧ e.overrun = false ∧
      e.filedump_fd = some (if ps.filterMap id = [] then [] else p.all.flatMap (bytes L)) := by
  obtain ⟨r, hinit, hrest⟩ := Option.bind_eq_some_iff.mp hrun
  obtain ⟨e', hlife', hpair⟩ := Option.map_eq_some_iff.mp hrest
  obtain ⟨rfl, rfl⟩ := Prod.mk.inj hpair
  rw [OggMux.lifetime, hinit, Option.map_some, Option.some.injEq, Prod.mk.injEq] at hlife
  obtain ⟨-, rfl⟩ := hlife
  have hlast : (oggmux_flush L (encode_frames L r.1 (ps.filterMap id)).1 true).2 = [] := htrailer
  have hne : (headerWrites L r.2).flatten ≠ [] := by
    obtain ⟨g, pages, hcons⟩ := List.exists_cons_of_ne_nil hheader
    rw [headerWrites_flatten, show r.2 = g :: pages from hcons]
    simp [bytes, L.header_ne_nil]
  have hresult := VideoEncoder.lifetime_result hlife'
  refine ⟨rfl, ?_⟩
  by_cases hps : ps.filterMap id = []
  · rw [passes_idle hps] at hresult
    rw [if_pos hps]
    exact ⟨hresult.2, hresult.1⟩
  · obtain ⟨batch, hbatch⟩ := passes_batch (L := L) hps r.1 hne
    rw [hbatch] at hresult
    rw [if_neg hps]
    obtain ⟨hfile, hover⟩ := hresult
    constructor
    · rw [hover, VideoEncoder.leftover, passes_left hps, hlast]
      simp
    · rw [hfile, headerWrites_flatten, passes_written, hlast]
      simp [Pages.all]

/-- **The file.** With any passes, an encoder hangs in `ogg_pipe_write` when the pages of a frame,
with the headers before the first one, have more bytes than the pipe has room for. Otherwise no
read overruns its buffer, and the file has the bytes of all pages as soon as a frame was encoded.
Before that it has none: the headers stay in the pipe. -/
theorem ogg_file (buf : ℕ → CHAR) (write_to_stream : Bool) (ps : List (Option OggFrame)) :
    ∃ last p, OggMux.lifetime L serials c (start use_audio sample_rate s) (ps.filterMap id) =
        some (last, p) ∧
      if ∃ pages ∈ p.together, VideoEncoder.room < (pages.flatMap (bytes L)).length then
        encoder_life L buf write_to_stream serials c (start use_audio sample_rate s) ps = none
      else ∃ e,
        encoder_life L buf write_to_stream serials c (start use_audio sample_rate s) ps =
            some (p, e) ∧
          e.overrun = false ∧
          e.filedump_fd = some (if ps.filterMap id = [] then [] else p.all.flatMap (bytes L)) := by
  obtain ⟨last, p, hlife, htrailer, hheader⟩ :=
    lifetime_trailer L serials c (start_idle use_audio sample_rate s) rfl (ps.filterMap id)
  refine ⟨last, p, hlife, ?_⟩
  have hnone := encoder_life_none_iff buf write_to_stream hlife htrailer
  split
  next hover => exact hnone.mpr hover
  next hfits =>
    obtain ⟨⟨p', e⟩, hrun⟩ := Option.ne_none_iff_exists'.mp (mt hnone.mp hfits)
    obtain ⟨rfl, hresult⟩ :=
      encoder_life_result L serials c use_audio sample_rate s hlife htrailer hheader hrun
    exact ⟨e, hrun, hresult⟩

end FreeJ
