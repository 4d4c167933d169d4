import Mathlib.Data.List.Basic
import FreeJ.Ringbuffer

/-!
# The Byte Pipe of the Video Encoder

`VideoEncoder` of `video_encoder.cpp`, as far as its pipe goes. The encoders put their output
into a ring buffer with `ogg_pipe_write`: the headers on initialisation, pages while a frame is
encoded, and what is left on destruction. Each pass of `thread_loop` moves what is in the pipe
to the file, through `encbuf`, which it reallocates to just that size; `~VideoEncoder` moves the
rest through `encbuf` as it is, if there is one.

The pipe is used by one thread at a time, since the thread is stopped before the encoder is
deleted: `ogg_pipe_write` waits for room and never gets it when there is too little, and a run
in which this happens does not end. A read of more bytes into `encbuf` than it was last
allocated for is recorded (`overrun`); allocation and `fwrite` do not fail.

## Main results

* `thread_loop_piped`: a pass empties the pipe into the file.
* `flush_pipe_eq`: the loop of the destructor moves the rest in one read.
* `pipe_lossless_iff`: the file has everything and no read overruns `encbuf` exactly when the
  bytes left to the destructor fit into the last allocation, or there are none.
* `pipe_loses`: the headers of an encoder that is deleted before its first frame are lost, and
  a long last page overruns `encbuf`.
-/

namespace FreeJ

open Ringbuffer

variable {α : Type*}

/-- `ogg_pipe_write` returns when there is room. -/
def ogg_pipe_write (rb : Ringbuffer α) (src : List α) : Option (Ringbuffer α) :=
  if rb.ringbuffer_write_space < src.length then none else some (rb.ringbuffer_write src).1

/-- `VideoEncoder`: its pipe, its buffer and where its output goes. -/
structure VideoEncoder (α : Type*) where
  ringbuffer : Ringbuffer α
  /-- the size `encbuf` was last allocated for, if it is not `NULL` -/
  encbuf : Option ℕ
  write_to_disk : Bool
  write_to_stream : Bool
  /-- the content of the file that is open, if one is -/
  filedump_fd : Option (List α)
  /-- more bytes were read into `encbuf` than it was last allocated for -/
  overrun : Bool

/-- What a pass of `thread_loop` finds: the writes of `encode_frame`, or a screen without a
surface. -/
abbrev Pass (α : Type*) := Option (List (List α))

namespace VideoEncoder

/-- An encoder that was just constructed, and set to write to a file that was just opened. -/
def fresh (buf : ℕ → α) (write_to_stream : Bool) : VideoEncoder α where
  ringbuffer := ringbuffer_create (1048 * 2096) buf
  encbuf := none
  write_to_disk := true
  write_to_stream := write_to_stream
  filedump_fd := some []
  overrun := false

/-- Calls of `ogg_pipe_write`, one after the other. -/
def pipe (e : VideoEncoder α) (writes : List (List α)) : Option (VideoEncoder α) :=
  (writes.foldlM ogg_pipe_write e.ringbuffer).map fun rb => { e with ringbuffer := rb }

/-- `encbuf = realloc(encbuf, encnum)`. -/
def realloc (e : VideoEncoder α) (encnum : ℕ) : VideoEncoder α :=
  { e with encbuf := some encnum }

/-- `ringbuffer_read(ringbuffer, encbuf, encnum)`, and the bytes that `encbuf` then holds. -/
def read (e : VideoEncoder α) (encnum : ℕ) : VideoEncoder α × List α :=
  let r := e.ringbuffer.ringbuffer_read encnum
  ({ e with
    ringbuffer := r.1
    overrun := e.overrun || decide (e.encbuf.getD 0 < r.2.length) }, r.2)

/-- `fwrite` of the bytes in `encbuf`, when there is a file to write to. -/
def dump (e : VideoEncoder α) (bytes : List α) : VideoEncoder α :=
  { e with
    filedump_fd :=
      if e.write_to_disk then e.filedump_fd.map (· ++ bytes) else e.filedump_fd }

/-- `VideoEncoder::thread_loop`. -/
def thread_loop (e : VideoEncoder α) : Pass α → Option (VideoEncoder α)
  | none => some e
  | some writes => (e.pipe writes).map fun e =>
      if e.write_to_disk || e.write_to_stream then
        let encnum := e.ringbuffer.ringbuffer_read_space
        if encnum = 0 then e
        else
          let r := (e.realloc encnum).read encnum
          if r.2.length > 0 then r.1.dump r.2 else r.1
      else e

theorem read_space_read (e : VideoEncoder α) :
    (e.read e.ringbuffer.ringbuffer_read_space).1.ringbuffer.ringbuffer_read_space = 0 := by
  obtain ⟨-, hcontents, -⟩ := e.ringbuffer.ringbuffer_read_contents
    e.ringbuffer.ringbuffer_read_space
  have hlength := congrArg List.length hcontents
  simpa [read] using hlength

/-- The loop of `~VideoEncoder`. -/
def flush_pipe (e : VideoEncoder α) : VideoEncoder α :=
  if _h : e.ringbuffer.ringbuffer_read_space = 0 then e
  else
    let r := e.read e.ringbuffer.ringbuffer_read_space
    if r.2.length ≤ 0 then r.1 else flush_pipe (r.1.dump r.2)
termination_by e.ringbuffer.ringbuffer_read_space
decreasing_by
  have hread : ((e.read e.ringbuffer.ringbuffer_read_space).1.dump
      (e.read e.ringbuffer.ringbuffer_read_space).2).ringbuffer.ringbuffer_read_space = 0 :=
    e.read_space_read
  omega

/-- `~VideoEncoder`. -/
def destroy (e : VideoEncoder α) : VideoEncoder α :=
  if e.encbuf.isSome then e.flush_pipe else e

/-- The life of an encoder: the headers, the passes of its thread, what the derived destructor
writes, and `~VideoEncoder`. -/
def lifetime (buf : ℕ → α) (write_to_stream : Bool) (headers : List (List α))
    (passes : List (Pass α)) (trailer : List (List α)) : Option (VideoEncoder α) :=
  (((fresh buf write_to_stream).pipe headers).bind fun e =>
    (passes.foldlM thread_loop e).bind fun e => e.pipe trailer).map destroy

/-! ### What is written and what is left -/

/-- The bytes that each pass with a surface finds in the pipe, with `waiting` in it before. -/
def batches (waiting : List α) : List (Pass α) → List (List α)
  | [] => []
  | none :: passes => batches waiting passes
  | some writes :: passes => (waiting ++ writes.flatten) :: batches [] passes

/-- The bytes that the passes leave in the pipe: those that were written after the last pass
with a surface. -/
def left (waiting : List α) : List (Pass α) → List α
  | [] => waiting
  | none :: passes => left waiting passes
  | some _ :: passes => left [] passes

/-- The batch found by the last pass that found any bytes. -/
def lastBatch (batches : List (List α)) : Option (List α) :=
  (batches.filter fun batch => !batch.isEmpty).getLast?

/-- The bytes that are left to `~VideoEncoder`. -/
def leftover (headers : List (List α)) (passes : List (Pass α)) (trailer : List (List α)) :
    List α :=
  left headers.flatten passes ++ trailer.flatten

/-- The bytes that the passes write. -/
def written : List (Pass α) → List α
  | [] => []
  | none :: passes => written passes
  | some writes :: passes => writes.flatten ++ written passes

/-- The state of an encoder that writes to a file and has not overrun its buffer. -/
structure Piped (e : VideoEncoder α) (waiting file : List α) (encbuf : Option ℕ) : Prop where
  waiting : e.ringbuffer.contents = waiting
  file : e.filedump_fd = some file
  encbuf : e.encbuf = encbuf
  disk : e.write_to_disk = true
  overrun : e.overrun = false

variable {e e' : VideoEncoder α} {waiting file : List α} {encbuf : Option ℕ}
  {writes headers trailer : List (List α)} {passes : List (Pass α)}

theorem ogg_pipe_write_contents {rb rb' : Ringbuffer α} {src : List α}
    (h : ogg_pipe_write rb src = some rb') : rb'.contents = rb.contents ++ src := by
  simp only [ogg_pipe_write] at h
  split at h
  · simp at h
  · obtain rfl := Option.some.inj h
    obtain ⟨hcnt, hcontents, -⟩ := rb.ringbuffer_write_contents src
    rw [hcontents, hcnt, Nat.min_eq_left (by omega), List.take_length]

/-- The pipe takes everything, in order. -/
theorem pipe_contents {rb rb' : Ringbuffer α}
    (h : writes.foldlM ogg_pipe_write rb = some rb') :
    rb'.contents = rb.contents ++ writes.flatten := by
  induction writes generalizing rb with
  | nil =>
      obtain rfl : rb = rb' := by simpa using h
      simp
  | cons src writes ih =>
      rw [List.foldlM_cons] at h
      obtain ⟨rb₁, h₁, h⟩ := Option.bind_eq_some_iff.mp h
      rw [ih h, ogg_pipe_write_contents h₁]
      simp

theorem Piped.pipe (h : Piped e waiting file encbuf) (hs : e.pipe writes = some e') :
    Piped e' (waiting ++ writes.flatten) file encbuf := by
  obtain ⟨rb, hrb, rfl⟩ := Option.map_eq_some_iff.mp hs
  exact { h with waiting := by rw [pipe_contents hrb, h.waiting] }

/-- Moving everything in the pipe to the file. -/
theorem Piped.move (h : Piped e waiting file encbuf) :
    (e.read e.ringbuffer.ringbuffer_read_space).2 = waiting ∧
      ((e.read e.ringbuffer.ringbuffer_read_space).1.dump waiting).ringbuffer.contents = [] ∧
      ((e.read e.ringbuffer.ringbuffer_read_space).1.dump waiting).filedump_fd =
        some (file ++ waiting) ∧
      ((e.read e.ringbuffer.ringbuffer_read_space).1.dump waiting).overrun =
        decide (encbuf.getD 0 < waiting.length) := by
  obtain ⟨hbytes, hcontents, -⟩ := e.ringbuffer.ringbuffer_read_contents
    e.ringbuffer.ringbuffer_read_space
  have hspace : e.ringbuffer.ringbuffer_read_space = waiting.length := by
    rw [← h.waiting, length_contents]
  have hall : (e.read e.ringbuffer.ringbuffer_read_space).2 = waiting := by
    rw [read, hbytes, h.waiting, hspace, List.take_length]
  refine ⟨hall, ?_, ?_, ?_⟩
  · rw [h.waiting, hspace, List.drop_length] at hcontents
    rw [← hspace] at hcontents
    exact hcontents
  · simp [dump, read, h.disk, h.file]
  · have hread : (e.ringbuffer.ringbuffer_read e.ringbuffer.ringbuffer_read_space).2 = waiting :=
      hall
    simp [dump, read, h.overrun, h.encbuf, hread]

/-- **A pass of `thread_loop`** with a surface empties the pipe into the file. -/
theorem thread_loop_piped (h : Piped e waiting file encbuf)
    (hs : e.thread_loop (some writes) = some e') :
    Piped e' [] (file ++ (waiting ++ writes.flatten))
      (if (waiting ++ writes.flatten).isEmpty then encbuf
        else some (waiting ++ writes.flatten).length) := by
  obtain ⟨e₁, h₁, rfl⟩ := Option.map_eq_some_iff.mp hs
  have hp := h.pipe h₁
  have hspace : e₁.ringbuffer.ringbuffer_read_space = (waiting ++ writes.flatten).length := by
    rw [← hp.waiting, length_contents]
  generalize waiting ++ writes.flatten = batch at hp hspace ⊢
  simp only [hp.disk, Bool.true_or, if_true]
  cases batch with
  | nil =>
      rw [if_pos (by simpa using hspace)]
      simpa using hp
  | cons b batch =>
      rw [if_neg (by simp [hspace])]
      have hr : Piped (e₁.realloc e₁.ringbuffer.ringbuffer_read_space) (b :: batch) file
          (some (b :: batch).length) :=
        { waiting := hp.waiting
          file := hp.file
          encbuf := by rw [realloc, hspace]
          disk := hp.disk
          overrun := hp.overrun }
      obtain ⟨hbytes, hempty, hfile, hover⟩ := hr.move
      change ((e₁.realloc _).read e₁.ringbuffer.ringbuffer_read_space).2 = _ at hbytes
      rw [hbytes, if_pos (by simp)]
      exact {
        waiting := hempty
        file := hfile
        encbuf := hr.encbuf
        disk := hp.disk
        overrun := hover.trans (by simp) }

theorem lastBatch_cons (batch : List α) (batches : List (List α)) :
    lastBatch (batch :: batches) =
      (lastBatch batches).or (if batch.isEmpty then none else some batch) := by
  cases batch with
  | nil => simp [lastBatch]
  | cons b batch => simp [lastBatch, List.getLast?_cons]

/-- **The passes** write the batches they find, and leave an `encbuf` of the size of the last
one that was not empty. -/
theorem passes_piped (h : Piped e waiting file encbuf)
    (hs : passes.foldlM thread_loop e = some e') :
    Piped e' (left waiting passes) (file ++ (batches waiting passes).flatten)
      (((lastBatch (batches waiting passes)).map List.length).or encbuf) := by
  induction passes generalizing e waiting file encbuf with
  | nil =>
      obtain rfl : e = e' := by simpa using hs
      simpa [left, batches, lastBatch] using h
  | cons pass passes ih =>
      rw [List.foldlM_cons] at hs
      obtain ⟨e₁, h₁, hrest⟩ := Option.bind_eq_some_iff.mp hs
      cases pass with
      | none =>
          obtain rfl := Option.some.inj h₁
          exact ih h hrest
      | some writes =>
          have hp := ih (thread_loop_piped h h₁) hrest
          rw [batches, lastBatch_cons, left, List.flatten_cons, ← List.append_assoc]
          generalize waiting ++ writes.flatten = batch at hp ⊢
          cases hlast : lastBatch (batches [] passes) <;> rw [hlast] at hp <;>
            cases batch <;> simpa using hp

/-- What the passes write and what they leave is what was in the pipe and what was written. -/
theorem batches_append_left (waiting : List α) (passes : List (Pass α)) :
    (batches waiting passes).flatten ++ left waiting passes = waiting ++ written passes := by
  induction passes generalizing waiting with
  | nil => simp [batches, left, written]
  | cons pass passes ih =>
      cases pass with
      | none => exact ih waiting
      | some writes =>
          rw [batches, left, written, List.flatten_cons, List.append_assoc, ih]
          simp

/-- **The loop of the destructor** moves what is left to the file in one read. -/
theorem flush_pipe_eq (h : Piped e waiting file encbuf) :
    e.flush_pipe.filedump_fd = some (file ++ waiting) ∧
      e.flush_pipe.overrun = decide (encbuf.getD 0 < waiting.length) := by
  have hspace : e.ringbuffer.ringbuffer_read_space = waiting.length := by
    rw [← h.waiting, length_contents]
  obtain ⟨hbytes, hempty, hfile, hover⟩ := h.move
  rw [flush_pipe]
  split
  · rename_i hz
    obtain rfl : waiting = [] := List.length_eq_zero_iff.mp (by omega)
    simp [h.file, h.overrun]
  · rename_i hz
    simp only [hbytes]
    rw [if_neg (by omega), flush_pipe, dif_pos (by rw [← length_contents, hempty]; rfl)]
    exact ⟨hfile, hover⟩

/-- What an encoder leaves behind: without an `encbuf` the rest is lost, with one it is
written, through a buffer of the size of the last batch. -/
theorem lifetime_result {buf : ℕ → α} {write_to_stream : Bool}
    (hrun : lifetime buf write_to_stream headers passes trailer = some e) :
    match lastBatch (batches headers.flatten passes) with
    | none => e.filedump_fd = some (batches headers.flatten passes).flatten ∧ e.overrun = false
    | some batch =>
      e.filedump_fd = some (headers.flatten ++ written passes ++ trailer.flatten) ∧
        e.overrun = decide (batch.length < (leftover headers passes trailer).length) := by
  have hfresh : Piped (fresh buf write_to_stream) [] [] none :=
    ⟨contents_create _ _, rfl, rfl, rfl, rfl⟩
  obtain ⟨e₃, hwrites, rfl⟩ := Option.map_eq_some_iff.mp hrun
  obtain ⟨e₁, h₁, hpasses⟩ := Option.bind_eq_some_iff.mp hwrites
  obtain ⟨e₂, h₂, h₃⟩ := Option.bind_eq_some_iff.mp hpasses
  have hp := (passes_piped (hfresh.pipe h₁) h₂).pipe h₃
  rw [List.nil_append, List.nil_append] at hp
  cases hlast : lastBatch (batches headers.flatten passes) with
  | none =>
      rw [hlast] at hp
      simp only [destroy, hp.encbuf]
      exact ⟨hp.file, hp.overrun⟩
  | some batch =>
      rw [hlast] at hp
      obtain ⟨hfile, hover⟩ := flush_pipe_eq hp
      simp only [destroy, hp.encbuf]
      refine ⟨hfile.trans ?_, hover⟩
      rw [← List.append_assoc, batches_append_left]

/-- **The pipe is lossless and safe to the end** exactly when the bytes that are left to the
destructor, those written after the last pass with a surface, are none or no more than the
last batch that a pass has found. -/
theorem pipe_lossless_iff {buf : ℕ → α} {write_to_stream : Bool}
    (hrun : lifetime buf write_to_stream headers passes trailer = some e) :
    (e.filedump_fd = some (headers.flatten ++ written passes ++ trailer.flatten) ∧
        e.overrun = false) ↔
      leftover headers passes trailer = [] ∨
        ∃ batch, lastBatch (batches headers.flatten passes) = some batch ∧
          (leftover headers passes trailer).length ≤ batch.length := by
  have hresult := lifetime_result hrun
  have htotal : headers.flatten ++ written passes ++ trailer.flatten =
      (batches headers.flatten passes).flatten ++ leftover headers passes trailer := by
    rw [leftover, ← List.append_assoc, batches_append_left]
  cases hlast : lastBatch (batches headers.flatten passes) with
  | none =>
      rw [hlast] at hresult
      obtain ⟨hfile, hover⟩ := hresult
      rw [hfile, hover, htotal]
      simp
  | some batch =>
      rw [hlast] at hresult
      obtain ⟨hfile, hover⟩ := hresult
      rw [hfile, hover]
      constructor
      · rintro ⟨-, hfits⟩
        exact Or.inr ⟨batch, rfl, by simpa using hfits⟩
      · rintro (hnil | ⟨batch', heq, hfits⟩)
        · exact ⟨rfl, by simp [hnil]⟩
        · obtain rfl := Option.some.inj heq
          exact ⟨rfl, by simpa using hfits⟩

/-- A short last page after a frame. -/
theorem pipe_lossless_short : ∃ e : VideoEncoder UInt8,
    lifetime (fun _ => 0) false [[1, 2]] [none, some [[3], [4, 5]]] [[6]] = some e ∧
      e.filedump_fd = some [1, 2, 3, 4, 5, 6] ∧ e.overrun = false := by
  obtain ⟨e, he⟩ : ∃ e : VideoEncoder UInt8,
      lifetime (fun _ => 0) false [[1, 2]] [none, some [[3], [4, 5]]] [[6]] = some e := ⟨_, rfl⟩
  exact ⟨e, he, (pipe_lossless_iff he).mpr (Or.inr ⟨[1, 2, 3, 4, 5], rfl, by decide⟩)⟩

/-- **Lost headers, and an overrun.** An encoder that is deleted before a pass has found any
bytes has no `encbuf`, and what is in its pipe does not get into the file; after a pass that
found one byte, two bytes of the last page are read into an `encbuf` of one. -/
theorem pipe_loses :
    (∃ e : VideoEncoder UInt8, lifetime (fun _ => 0) false [[1, 2]] [none] [[3]] = some e ∧
      e.filedump_fd = some []) ∧
    ∃ e : VideoEncoder UInt8, lifetime (fun _ => 0) false [] [some [[1]]] [[2, 3]] = some e ∧
      e.overrun = true := by
  constructor
  · obtain ⟨e, he⟩ : ∃ e : VideoEncoder UInt8,
        lifetime (fun _ => 0) false [[1, 2]] [none] [[3]] = some e := ⟨_, rfl⟩
    exact ⟨e, he, (lifetime_result he).1⟩
  · obtain ⟨e, he⟩ : ∃ e : VideoEncoder UInt8,
        lifetime (fun _ => 0) false [] [some [[1]]] [[2, 3]] = some e := ⟨_, rfl⟩
    exact ⟨e, he, (lifetime_result he).2⟩

end VideoEncoder

end FreeJ
