import FreeJ.Transition
import FreeJ.VideoEncoder

/-!
# The Thread of the Video Encoder

The thread of `VideoEncoder` step by step: a pass of `thread_loop` makes the writes of
`encode_frame`, each of them a call of `ogg_pipe_write` that goes round until there is room, and
then drains the pipe, if the encoder writes to a file or to a stream. The other threads switch
`write_to_disk` and `write_to_stream` on and off. Nobody else reads the pipe.

## Main results

* `pass_exec`: the steps of a pass do what `VideoEncoder.thread_loop` does.
* `Looping.forever`: a thread that waits for room waits for ever.
* `encoder_blocks_iff`: the thread never waits in the runs in which every pass starts with room
  for what it writes, and a pass that does not comes to wait.
* `encoder_loops`: with recording off, passes of one page each fill the pipe.
-/

namespace FreeJ

open Ringbuffer Transition

variable {α : Type*}

/-- `VideoEncoder::thread_loop`, what is done after `encode_frame`. -/
def VideoEncoder.drain (e : VideoEncoder α) : VideoEncoder α :=
  if e.write_to_disk || e.write_to_stream then
    let encnum := e.ringbuffer.ringbuffer_read_space
    if encnum = 0 then e
    else
      let r := (e.realloc encnum).read encnum
      if r.2.length > 0 then r.1.dump r.2 else r.1
  else e

/-- The encoder with its thread. -/
structure EncoderThread (α : Type*) where
  enc : VideoEncoder α
  /-- the writes that `encode_frame` has still to make, in a pass -/
  frame : Option (List (List α))

namespace EncoderThread

/-- What happens: another thread starts or stops recording and streaming; a pass begins; the
first write that is left tries for room once; a pass ends. -/
inductive Act (α : Type*)
  | switch (write_to_disk write_to_stream : Bool) (filedump_fd : Option (List α))
  | pass (p : Pass α)
  | write
  | drain

/-- A step, if there is one. -/
def step (s : EncoderThread α) : Act α → Option (EncoderThread α)
  | .switch write_to_disk write_to_stream filedump_fd =>
    some { s with
      enc := { s.enc with
        write_to_disk := write_to_disk
        write_to_stream := write_to_stream
        filedump_fd := filedump_fd } }
  | .pass p =>
    match s.frame with
    | none => some { s with frame := p }
    | some _ => none
  | .write =>
    match s.frame with
    | some (src :: rest) =>
      match ogg_pipe_write s.enc.ringbuffer src with
      | some rb => some ⟨{ s.enc with ringbuffer := rb }, some rest⟩
      | none => some s -- once more round the loop
    | _ => none
  | .drain =>
    match s.frame with
    | some [] => some ⟨s.enc.drain, none⟩
    | _ => none

/-- An encoder whose headers are in the pipe, with its thread about to begin. -/
def Initialized (buf : ℕ → α) (s : EncoderThread α) : Prop :=
  s.frame = none ∧ s.enc.encbuf = none ∧ s.enc.overrun = false ∧
    ∃ headers : List (List α), headers.foldlM ogg_pipe_write
      (ringbuffer_create (1048 * 2096) buf) = some s.enc.ringbuffer

/-- The runs of an encoder. -/
def encoder (buf : ℕ → α) : System (EncoderThread α) (Act α) :=
  .ofFun (Initialized buf) step

/-- The thread is in the loop of `ogg_pipe_write`, and there is no room. -/
def Looping (s : EncoderThread α) : Prop :=
  ∃ src rest, s.frame = some (src :: rest) ∧ ogg_pipe_write s.enc.ringbuffer src = none

/-- A pass starts with room for what it writes. -/
def HasRoom (s : EncoderThread α) : Act α → Prop
  | .pass (some writes) => writes.flatten.length ≤ s.enc.ringbuffer.ringbuffer_write_space
  | _ => True

variable {s t : EncoderThread α} {a : Act α} {src : List α} {writes rest : List (List α)}
  {rb rb' : Ringbuffer α} {e e' : VideoEncoder α}

/-! ### The pipe -/

theorem ogg_pipe_write_none :
    ogg_pipe_write rb src = none ↔ rb.ringbuffer_write_space < src.length := by
  rw [ogg_pipe_write]
  split <;> simp [*]

/-- A write takes its bytes out of the room there is. -/
theorem write_space_pipe_write (h : ogg_pipe_write rb src = some rb') :
    rb'.ringbuffer_write_space + src.length = rb.ringbuffer_write_space ∧ rb'.size = rb.size := by
  have hcontents := congrArg List.length (VideoEncoder.ogg_pipe_write_contents h)
  have hsize : rb'.size = rb.size := by
    simp only [ogg_pipe_write] at h
    split at h
    · simp at h
    · obtain rfl := Option.some.inj h
      exact (rb.ringbuffer_write_contents src).2.2
  have h1 := rb.write_space_add_read_space
  have h2 := rb'.write_space_add_read_space
  rw [List.length_append, length_contents, length_contents] at hcontents
  omega

/-- Draining empties the pipe while the encoder writes to a file or a stream, and does nothing
else. -/
theorem drain_space (e : VideoEncoder α) :
    e.drain.ringbuffer.size = e.ringbuffer.size ∧
      e.drain.ringbuffer.ringbuffer_read_space =
        if e.write_to_disk || e.write_to_stream then 0 else e.ringbuffer.ringbuffer_read_space := by
  rw [VideoEncoder.drain]
  split
  · dsimp only
    split
    · rename_i hempty
      exact ⟨rfl, hempty⟩
    · obtain ⟨-, hcontents, hsize⟩ := e.ringbuffer.ringbuffer_read_contents
        e.ringbuffer.ringbuffer_read_space
      have hread : ((e.realloc e.ringbuffer.ringbuffer_read_space).read
          e.ringbuffer.ringbuffer_read_space).1.ringbuffer.ringbuffer_read_space = 0 :=
        e.read_space_read
      split
      · exact ⟨hsize, hread⟩
      · exact ⟨hsize, hread⟩
  · exact ⟨rfl, rfl⟩

/-! ### Passes -/

/-- A pass as `VideoEncoder.thread_loop` has it. -/
theorem thread_loop_eq (e : VideoEncoder α) (writes : List (List α)) :
    e.thread_loop (some writes) = (e.pipe writes).map VideoEncoder.drain := rfl

/-- The steps of the writes that there is room for. -/
theorem writes_exec (rest : List (List α)) (h : writes.foldlM ogg_pipe_write rb = some rb') :
    exec step ⟨{ e with ringbuffer := rb }, some (writes ++ rest)⟩
      (List.replicate writes.length .write) =
        some ⟨{ e with ringbuffer := rb' }, some rest⟩ := by
  induction writes generalizing rb with
  | nil =>
      obtain rfl : rb = rb' := by simpa using h
      rfl
  | cons src writes ih =>
      rw [List.foldlM_cons] at h
      obtain ⟨rb₁, h₁, h⟩ := Option.bind_eq_some_iff.mp h
      rw [List.length_cons, List.replicate_succ, exec, ← ih h]
      simp only [step, List.cons_append, h₁, Option.bind_some]

/-- **The steps of a pass** do what `thread_loop` does. -/
theorem pass_exec (h : e.thread_loop (some writes) = some e') :
    exec step ⟨e, none⟩ (.pass (some writes) :: (List.replicate writes.length .write ++ [.drain]))
      = some ⟨e', none⟩ := by
  obtain ⟨e₁, he₁, rfl⟩ := Option.map_eq_some_iff.mp h
  obtain ⟨rb, hrb, rfl⟩ := Option.map_eq_some_iff.mp he₁
  have hwrites := writes_exec (e := e) [] hrb
  rw [List.append_nil] at hwrites
  simp only [exec, step, Option.bind_some]
  rw [exec_append, hwrites]
  rfl

/-- Writes that do not all find room come to one that does not. -/
theorem writes_loop (hframe : s.frame = some writes)
    (hfull : s.enc.ringbuffer.ringbuffer_write_space < writes.flatten.length) :
    ∃ k t, exec step s (List.replicate k .write) = some t ∧ t.Looping := by
  induction writes generalizing s with
  | nil => simp at hfull
  | cons src rest ih =>
      rcases hpipe : ogg_pipe_write s.enc.ringbuffer src with _ | rb
      · exact ⟨0, s, rfl, src, rest, hframe, hpipe⟩
      · obtain ⟨hspace, -⟩ := write_space_pipe_write hpipe
        rw [List.flatten_cons, List.length_append] at hfull
        obtain ⟨k, t, ht, hloop⟩ := ih (s := ⟨{ s.enc with ringbuffer := rb }, some rest⟩) rfl
          (show rb.ringbuffer_write_space < rest.flatten.length by omega)
        refine ⟨k + 1, t, ?_, hloop⟩
        rw [List.replicate_succ, exec]
        simp only [step, hframe, hpipe, Option.bind_some]
        exact ht

/-- **A thread that waits for room waits for ever**: whatever happens, it is in the same
write. -/
theorem Looping.forever (hs : s.Looping) (hr : Reachable (.ofFun (· = s) step) t) :
    t.Looping := by
  obtain ⟨src, rest, hframe, hpipe⟩ := hs
  have hinv : Invariant (.ofFun (· = s) step) fun t =>
      t.frame = some (src :: rest) ∧ ogg_pipe_write t.enc.ringbuffer src = none := by
    refine ⟨?_, ?_⟩
    · rintro _ rfl
      exact ⟨hframe, hpipe⟩
    · rintro t a u ⟨hframe, hpipe⟩ hu
      change step t a = some u at hu
      cases a with
      | switch disk stream fd =>
          obtain rfl := Option.some.inj hu
          exact ⟨hframe, hpipe⟩
      | pass p => simp [step, hframe] at hu
      | write =>
          obtain rfl : t = u := by simpa [step, hframe, hpipe] using hu
          exact ⟨hframe, hpipe⟩
      | drain => simp [step, hframe] at hu
  exact ⟨src, rest, hinv.holds hr⟩

/-! ### Runs -/

/-- In runs in which every pass starts with room, there is room for the writes that are left. -/
theorem encoder_room {buf : ℕ → α} :
    Invariant ((encoder buf).restrict HasRoom) fun s => ∀ writes, s.frame = some writes →
      writes.flatten.length ≤ s.enc.ringbuffer.ringbuffer_write_space where
  init := by
    rintro s ⟨hframe, -⟩ writes hw
    rw [hframe] at hw
    simp at hw
  step := by
    rintro s a t hs ⟨hroom, ht⟩ writes hw
    change step s a = some t at ht
    cases a with
    | switch disk stream fd =>
        obtain rfl := Option.some.inj ht
        exact hs writes hw
    | pass p =>
        simp only [step] at ht
        split at ht
        · obtain rfl := Option.some.inj ht
          obtain rfl : p = some writes := hw
          exact hroom
        · simp at ht
    | write =>
        simp only [step] at ht
        split at ht
        · rename_i src rest hframe
          split at ht
          · rename_i rb hpipe
            obtain rfl := Option.some.inj ht
            obtain rfl : rest = writes := Option.some.inj hw
            obtain ⟨hspace, -⟩ := write_space_pipe_write hpipe
            have hold := hs _ hframe
            rw [List.flatten_cons, List.length_append] at hold
            change rest.flatten.length ≤ rb.ringbuffer_write_space
            omega
          · obtain rfl := Option.some.inj ht
            exact hs writes hw
        · simp at ht
    | drain =>
        simp only [step] at ht
        split at ht
        · obtain rfl := Option.some.inj ht
          simp at hw
        · simp at ht

/-- The steps of a pass that writes one page. -/
def pageSteps (page : List α) : List (Act α) := [.pass (some [page]), .write, .drain]

/-- **With recording and streaming off, the pages stay in the pipe.** -/
theorem pages_exec (page : List α) {k : ℕ} (hframe : s.frame = none)
    (hdisk : s.enc.write_to_disk = false) (hstream : s.enc.write_to_stream = false)
    (hroom : k * page.length ≤ s.enc.ringbuffer.ringbuffer_write_space) :
    ∃ t, exec step s (List.replicate k (pageSteps page)).flatten = some t ∧ t.frame = none ∧
      t.enc.write_to_disk = false ∧ t.enc.write_to_stream = false ∧
      t.enc.ringbuffer.ringbuffer_write_space + k * page.length =
        s.enc.ringbuffer.ringbuffer_write_space := by
  induction k generalizing s with
  | zero => exact ⟨s, rfl, hframe, hdisk, hstream, by omega⟩
  | succ k ih =>
      rw [Nat.succ_mul] at hroom
      obtain ⟨rb, hrb⟩ : ∃ rb, ogg_pipe_write s.enc.ringbuffer page = some rb := by
        rcases hnone : ogg_pipe_write s.enc.ringbuffer page with _ | rb
        · rw [ogg_pipe_write_none] at hnone
          omega
        · exact ⟨rb, rfl⟩
      obtain ⟨hspace, -⟩ := write_space_pipe_write hrb
      have hdrain : ({ s.enc with ringbuffer := rb } : VideoEncoder α).drain =
          { s.enc with ringbuffer := rb } := by simp [VideoEncoder.drain, hdisk, hstream]
      have hpass : exec step s (pageSteps page) =
          some ⟨{ s.enc with ringbuffer := rb }, none⟩ := by
        simp [pageSteps, exec, step, hframe, hrb, hdrain]
      obtain ⟨t, ht, htframe, htdisk, htstream, htspace⟩ :=
        ih (s := ⟨{ s.enc with ringbuffer := rb }, none⟩) rfl hdisk hstream
          (show _ ≤ rb.ringbuffer_write_space by omega)
      refine ⟨t, ?_, htframe, htdisk, htstream, ?_⟩
      · rw [List.replicate_succ, List.flatten_cons, exec_append, hpass]
        exact ht
      · have htspace' : t.enc.ringbuffer.ringbuffer_write_space + k * page.length =
            rb.ringbuffer_write_space := htspace
        rw [Nat.succ_mul]
        omega

/-- The room in the pipe of an encoder. -/
theorem create_space (buf : ℕ → α) :
    (ringbuffer_create (1048 * 2096) buf).ringbuffer_write_space = 4194303 := by
  have hs := (ringbuffer_create (1048 * 2096) buf).write_space_add_read_space
  have hsize : (ringbuffer_create (1048 * 2096) buf).size = 4194304 := rfl
  rw [read_space_create] at hs
  omega

/-- An encoder with a header of two bytes, that neither records nor streams. -/
theorem exists_initialized (buf : ℕ → α) (header : List α) (hlen : header.length = 2) :
    ∃ s : EncoderThread α, Initialized buf s ∧ s.enc.write_to_disk = false ∧
      s.enc.write_to_stream = false ∧
      s.enc.ringbuffer.ringbuffer_write_space = 4194301 := by
  have hspace := create_space buf
  obtain ⟨rb, hrb⟩ : ∃ rb, ogg_pipe_write (ringbuffer_create (1048 * 2096) buf) header =
      some rb := by
    rcases hnone : ogg_pipe_write (ringbuffer_create (1048 * 2096) buf) header with _ | rb
    · rw [ogg_pipe_write_none] at hnone
      omega
    · exact ⟨rb, rfl⟩
  have hroom := (write_space_pipe_write hrb).1
  refine ⟨⟨⟨rb, none, false, false, none, false⟩, none⟩, ⟨rfl, rfl, rfl, [header], ?_⟩, rfl, rfl,
    show rb.ringbuffer_write_space = _ by omega⟩
  rw [List.foldlM_cons, hrb]
  rfl

end EncoderThread

open EncoderThread

/-- **The thread waits for ever exactly when a pass starts without room for what it writes.**
In a run in which every pass starts with room, it is never in the loop of `ogg_pipe_write` with
no room; and if the next pass does not start with room, the thread comes to that loop, and
whatever happens then it stays there. -/
theorem encoder_blocks_iff {buf : ℕ → α} {s : EncoderThread α}
    (hr : Reachable ((encoder buf).restrict HasRoom) s) :
    ¬ s.Looping ∧ ∀ p t, EncoderThread.step s (.pass p) = some t → ¬ s.HasRoom (.pass p) →
      ∃ k u, exec EncoderThread.step t (List.replicate k .write) = some u ∧
        ∀ v, Reachable (.ofFun (· = u) EncoderThread.step) v → v.Looping := by
  refine ⟨?_, fun p t ht hroom => ?_⟩
  · rintro ⟨src, rest, hframe, hpipe⟩
    have hfits := encoder_room.holds hr _ hframe
    rw [ogg_pipe_write_none] at hpipe
    rw [List.flatten_cons, List.length_append] at hfits
    omega
  · cases p with
    | none => exact absurd trivial hroom
    | some writes =>
        simp only [EncoderThread.step] at ht
        split at ht
        · obtain rfl := Option.some.inj ht
          obtain ⟨k, u, hu, hloop⟩ := writes_loop (s := { s with frame := some writes }) rfl
            (Nat.lt_of_not_le hroom)
          exact ⟨k, u, hu, fun v hv => hloop.forever hv⟩
        · simp at ht

/-- An encoder with a header of two bytes, in a pass of one short page. -/
theorem encoder_blocks_iff_page :
    ∃ s : EncoderThread UInt8, s.frame = some [[3, 4, 5]] ∧ ¬ s.Looping := by
  obtain ⟨s, hinit, -, -, hspace⟩ := exists_initialized (fun _ => (0 : UInt8)) [1, 2] rfl
  have hroom : s.HasRoom (.pass (some [[3, 4, 5]])) := by
    change 3 ≤ s.enc.ringbuffer.ringbuffer_write_space
    omega
  have hpass : EncoderThread.step s (.pass (some [[3, 4, 5]])) =
      some { s with frame := some [[3, 4, 5]] } := by
    rw [EncoderThread.step, hinit.1]
  have hr : Reachable ((encoder fun _ => (0 : UInt8)).restrict HasRoom) s := .init hinit
  exact ⟨_, rfl, (encoder_blocks_iff (hr.step ⟨hroom, hpass⟩)).1⟩

/-- **The thread hangs with recording off.** Nothing is recorded or streamed; in 64 passes one
page of 65307 bytes each is written, the size of the largest ogg page, and in the next pass the
thread waits for room that nobody makes. -/
theorem encoder_loops :
    ∃ s t : EncoderThread UInt8, Reachable (encoder fun _ => 0) s ∧
      s.enc.write_to_disk = false ∧ s.enc.write_to_stream = false ∧
      exec EncoderThread.step s
        ((List.replicate 64 (pageSteps (List.replicate 65307 0))).flatten ++
          [.pass (some [List.replicate 65307 0])]) = some t ∧
      ∀ u, Reachable (.ofFun (· = t) EncoderThread.step) u → u.Looping := by
  obtain ⟨s, hinit, hdisk, hstream, hspace⟩ :=
    exists_initialized (fun _ => (0 : UInt8)) [1, 2] rfl
  generalize hpage : List.replicate 65307 (0 : UInt8) = page
  have hlen : page.length = 65307 := by rw [← hpage, List.length_replicate]
  obtain ⟨t, ht, hframe, -, -, hleft⟩ := pages_exec page (k := 64) hinit.1 hdisk
    hstream (by omega)
  refine ⟨s, { t with frame := some [page] }, .init hinit, hdisk, hstream, ?_, ?_⟩
  · rw [exec_append, ht, Option.bind_some, exec, EncoderThread.step, hframe]
    rfl
  · have hfull : t.enc.ringbuffer.ringbuffer_write_space < page.length := by omega
    have hloop : Looping { t with frame := some [page] } :=
      ⟨page, [], rfl, ogg_pipe_write_none.mpr hfull⟩
    exact fun u hu => hloop.forever hu

end FreeJ
