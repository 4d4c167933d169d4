import FreeJ.Paging
import FreeJ.SkeletonPackets

/-!
# The Multiplexer

`oggmux_info` and the functions of `theorautils.cpp` that put the packets of the encoders into
streams and write the pages of these: `oggmux_init` the headers, `oggmux_flush` what comes
after. A function returns the pages it writes, in order. The streams are those of a library
(`Libogg`), of which only what it is documented to do is known; the encoders are known by the
packets they give. Times and bit rates are left out, since nothing depends on them.

## Main results

* `oggmux_flush_eq`: a flush writes all pages of the video for which there is enough, and then
  those of the audio, and leaves none.
* `oggmux_init_eq`: what is written first.
-/

namespace FreeJ

/-- `ogg_packet` -/
structure OggPacket where
  packet : List CHAR
  b_o_s : Bool
  e_o_s : Bool
  granulepos : ℤ

/-- The streams of a library, the pages of which are a header and a body. -/
structure Libogg (S G : Type*) extends Paging S OggPacket G (BitVec 32) where
  /-- `ogg_stream_init` -/
  stream_init : BitVec 32 → S
  header : G → List CHAR
  body : G → List CHAR
  fill_init : ∀ k, fill (stream_init k) = 0
  serialno_init : ∀ k, serialno (stream_init k) = k
  begun_init : ∀ k, begun (stream_init k) = false
  ended_init : ∀ k, ended (stream_init k) = false
  last_eq : ∀ p, last p = p.e_o_s
  header_ne_nil : ∀ g, header g ≠ []

/-- No packet waits in a new stream. -/
theorem Libogg.waiting_init {S G : Type*} (L : Libogg S G) (k : BitVec 32) :
    L.waiting (L.stream_init k) = 0 := by
  have hle := L.waiting_le (L.stream_init k)
  rw [L.fill_init] at hle
  exact Nat.le_zero.mp hle

/-- `oggmux_info` -/
structure OggMux (S G : Type*) where
  audio_only : Bool
  video_only : Bool
  with_skeleton : Bool
  fps_numerator : BitVec 32
  fps_denominator : BitVec 32
  sample_rate : BitVec 32
  /-- `to`, the stream of the video -/
  to_state : S
  /-- `vo`, the stream of the audio -/
  vo_state : S
  /-- `so`, the stream of the skeleton -/
  so_state : S
  /-- the page that waits to be written, if `videopage_valid` -/
  videopage : Option G
  /-- the page that waits to be written, if `audiopage_valid` -/
  audiopage : Option G
  video_bytesout : ℕ
  audio_bytesout : ℕ
  v_pkg : ℤ
  a_pkg : ℤ

/-- What the encoders give for the headers. -/
structure Codecs where
  theora_header : OggPacket
  theora_comment : OggPacket
  theora_tables : OggPacket
  vorbis_header : OggPacket
  vorbis_comm : OggPacket
  vorbis_code : OggPacket
  /-- `theora_granule_shift` -/
  granule_shift : CHAR
  /-- the local time -/
  timeStart : CString

/-- `calloc` -/
def calloc : Cells CHAR := ⟨fun _ => 0, []⟩

variable {S G : Type*}

namespace OggMux

variable (L : Libogg S G)

/-! ### Headers -/

/-- The packet of `add_fishead_packet`. -/
def fishead (c : Codecs) : OggPacket :=
  ⟨(fishead_packet c.timeStart calloc).take 64, true, false, 0⟩

/-- What `add_fisbone_packet` looks up. -/
def skeletonInfo (c : Codecs) (info : OggMux S G) : SkeletonInfo where
  audio_only := info.audio_only
  video_only := info.video_only
  to_serialno := L.serialno info.to_state
  vo_serialno := L.serialno info.vo_state
  fps_numerator := info.fps_numerator
  fps_denominator := info.fps_denominator
  granule_shift := c.granule_shift
  sample_rate := info.sample_rate

/-- The packets of `add_fisbone_packet`. -/
def fisbones (c : Codecs) (info : OggMux S G) : List OggPacket :=
  ((info.skeletonInfo L c).add_fisbone_packet calloc).map fun m => ⟨m.take 80, false, false, 0⟩

/-- The last packet of the skeleton, which is empty. -/
def skeleton_eos : OggPacket := ⟨[], false, true, 0⟩

/-- The streams, with the serial numbers that `rand` gives for them. -/
def init_streams (serials : BitVec 32 × BitVec 32 × BitVec 32) (info : OggMux S G) : OggMux S G :=
  { info with
    to_state := if info.audio_only then info.to_state else L.stream_init serials.1
    vo_state := if info.video_only then info.vo_state else L.stream_init serials.2.1
    so_state := if info.with_skeleton then L.stream_init serials.2.2 else info.so_state }

/-- The fishead packet on its page, without which `oggmux_init` returns. -/
def write_fishead (c : Codecs) (info : OggMux S G) : Option (OggMux S G × List G) :=
  if info.with_skeleton then
    (L.pageout (L.packetin info.so_state (fishead c))).map fun r =>
      ({ info with so_state := r.2 }, [r.1])
  else some (info, [])

/-- The first header of the video on its page, without which `oggmux_init` returns, and its other
headers, which wait in the stream. -/
def write_theora_header (c : Codecs) (info : OggMux S G) : Option (OggMux S G × List G) :=
  if !info.audio_only then
    (L.pageout (L.packetin info.to_state c.theora_header)).map fun r =>
      ({ info with to_state := L.packetin (L.packetin r.2 c.theora_comment) c.theora_tables },
        [r.1])
  else some (info, [])

/-- The headers of the audio. The pipe takes whole pages, so that none of the writes fails. -/
def write_vorbis_headers (c : Codecs) (info : OggMux S G) : OggMux S G × List G :=
  if !info.video_only then
    let first := L.flushes (L.packetin info.vo_state c.vorbis_header)
    let rest := L.flushes (L.packetin (L.packetin first.2 c.vorbis_comm) c.vorbis_code)
    ({ info with vo_state := rest.2 }, first.1 ++ rest.1)
  else (info, [])

/-- The fisbone packets. -/
def write_fisbones (c : Codecs) (info : OggMux S G) : OggMux S G × List G :=
  if info.with_skeleton then
    let r := L.flushes ((info.fisbones L c).foldl L.packetin info.so_state)
    ({ info with so_state := r.2 }, r.1)
  else (info, [])

/-- The rest of the headers of the video. -/
def write_theora_headers (info : OggMux S G) : OggMux S G × List G :=
  if !info.audio_only then
    ({ info with to_state := (L.flushes info.to_state).2 }, (L.flushes info.to_state).1)
  else (info, [])

/-- The end of the skeleton. There is a page for the packet, since it has just been put in. -/
def write_skeleton_eos (info : OggMux S G) : Option (OggMux S G × List G) :=
  if info.with_skeleton then
    (L.flush (L.packetin info.so_state skeleton_eos)).map fun r =>
      ({ info with so_state := r.2 }, [r.1])
  else some (info, [])

/-- `oggmux_init` -/
def oggmux_init (serials : BitVec 32 × BitVec 32 × BitVec 32) (c : Codecs) (info : OggMux S G) :
    Option (OggMux S G × List G) := do
  let (info, fishead) ← write_fishead L c (init_streams L serials info)
  let (info, theora) ← write_theora_header L c info
  let (info, vorbis) := write_vorbis_headers L c info
  let (info, fisbones) := write_fisbones L c info
  let (info, headers) := write_theora_headers L info
  let (info, eos) ← write_skeleton_eos L info
  return (info, fishead ++ theora ++ vorbis ++ fisbones ++ headers ++ eos)

/-! ### Packets and pages -/

/-- `oggmux_add_video`, with the packets of the encoder. -/
def oggmux_add_video (packets : List OggPacket) (info : OggMux S G) : OggMux S G :=
  { info with
    to_state := packets.foldl L.packetin info.to_state
    v_pkg := info.v_pkg + packets.length }

/-- `oggmux_add_audio` -/
def oggmux_add_audio (packets : List OggPacket) (info : OggMux S G) : OggMux S G :=
  { info with
    vo_state := packets.foldl L.packetin info.vo_state
    a_pkg := info.a_pkg + packets.length }

/-- The bytes of a page. -/
def bytes (g : G) : List CHAR := L.header g ++ L.body g

/-- `write_video_page` -/
def write_video_page (info : OggMux S G) : OggMux S G × List G :=
  match info.videopage with
  | some g =>
    ({ info with
      videopage := none
      video_bytesout := info.video_bytesout + (bytes L g).length
      v_pkg := info.v_pkg - L.packets g }, [g])
  | none => (info, [])

/-- `write_audio_page` -/
def write_audio_page (info : OggMux S G) : OggMux S G × List G :=
  match info.audiopage with
  | some g =>
    ({ info with
      audiopage := none
      audio_bytesout := info.audio_bytesout + (bytes L g).length
      a_pkg := info.a_pkg - L.packets g }, [g])
  | none => (info, [])

/-- Get a page of the video, if there is none yet and there is enough for one. -/
def fetch_video (info : OggMux S G) : OggMux S G :=
  if !info.audio_only && info.videopage.isNone then
    match L.pageout info.to_state with
    | some (g, s) => { info with to_state := s, videopage := some g }
    | none => info
  else info

/-- Get a page of the audio. -/
def fetch_audio (info : OggMux S G) : OggMux S G :=
  if !info.video_only && info.audiopage.isNone then
    match L.pageout info.vo_state with
    | some (g, s) => { info with vo_state := s, audiopage := some g }
    | none => info
  else info

/-- The page that is written next. -/
inductive Best
  | video
  | audio

/-- The conditions of `oggmux_flush`, one after the other. -/
def best (info : OggMux S G) (e_o_s : Bool) : Option Best :=
  if info.video_only && info.videopage.isSome then some .video
  else if info.audio_only && info.audiopage.isSome then some .audio
  else if info.videopage.isSome then some .video
  else if info.audiopage.isSome then some .audio
  else if e_o_s && info.videopage.isSome then some .video
  else if e_o_s && info.audiopage.isSome then some .audio
  else none

/-- What is to be written. -/
def pending (info : OggMux S G) : ℕ :=
  L.fill info.to_state + L.fill info.vo_state + info.videopage.toList.length +
    info.audiopage.toList.length

variable {L} {info : OggMux S G} {e_o_s : Bool}

theorem pending_fetch_video (info : OggMux S G) :
    pending L (fetch_video L info) ≤ pending L info := by
  rw [fetch_video]
  split
  next h =>
    split
    next g s hg =>
      have hlt := (L.pageout_took _ _ _ hg).fill
      simp only [pending, Option.toList_some, List.length_singleton]
      omega
    next => exact Nat.le_refl _
  next => exact Nat.le_refl _

theorem pending_fetch_audio (info : OggMux S G) :
    pending L (fetch_audio L info) ≤ pending L info := by
  rw [fetch_audio]
  split
  next h =>
    split
    next g s hg =>
      have hlt := (L.pageout_took _ _ _ hg).fill
      simp only [pending, Option.toList_some, List.length_singleton]
      omega
    next => exact Nat.le_refl _
  next => exact Nat.le_refl _

theorem best_video (h : best info e_o_s = some .video) : ∃ g, info.videopage = some g := by
  cases hv : info.videopage with
  | some g => exact ⟨g, rfl⟩
  | none =>
      cases ha : info.audiopage <;> cases ho : info.audio_only <;> simp [best, hv, ha, ho] at h

theorem best_audio (h : best info e_o_s = some .audio) : ∃ g, info.audiopage = some g := by
  cases ha : info.audiopage with
  | some g => exact ⟨g, rfl⟩
  | none =>
      cases hv : info.videopage <;> cases ho : info.video_only <;> simp [best, hv, ha, ho] at h

theorem pending_write_video (h : best info e_o_s = some .video) :
    pending L (write_video_page L info).1 < pending L info := by
  obtain ⟨g, hg⟩ := best_video h
  simp [write_video_page, pending, hg]

theorem pending_write_audio (h : best info e_o_s = some .audio) :
    pending L (write_audio_page L info).1 < pending L info := by
  obtain ⟨g, hg⟩ := best_audio h
  simp [write_audio_page, pending, hg]

variable (L) in
/-- `oggmux_flush`. Each round writes a page, so that the loop ends. -/
def oggmux_flush (info : OggMux S G) (e_o_s : Bool) : OggMux S G × List G :=
  let fetched := fetch_audio L (fetch_video L info)
  match _h : best fetched e_o_s with
  | some .video =>
    let written := write_video_page L fetched
    let rest := oggmux_flush written.1 e_o_s
    (rest.1, written.2 ++ rest.2)
  | some .audio =>
    let written := write_audio_page L fetched
    let rest := oggmux_flush written.1 e_o_s
    (rest.1, written.2 ++ rest.2)
  | none => (fetched, [])
termination_by pending L info
decreasing_by
  · have hvideo := pending_fetch_video (L := L) info
    have haudio := pending_fetch_audio (L := L) (fetch_video L info)
    exact Nat.lt_of_lt_of_le (pending_write_video _h) (Nat.le_trans haudio hvideo)
  · have hvideo := pending_fetch_video (L := L) info
    have haudio := pending_fetch_audio (L := L) (fetch_video L info)
    exact Nat.lt_of_lt_of_le (pending_write_audio _h) (Nat.le_trans haudio hvideo)

/-! ### What a flush writes -/

variable (L) in
/-- The pages of the video that are there or for which there is enough, and the stream after
them. -/
def videoPages (info : OggMux S G) : List G × S :=
  if info.audio_only then (info.videopage.toList, info.to_state)
  else (info.videopage.toList ++ (L.pageouts info.to_state).1, (L.pageouts info.to_state).2)

variable (L) in
/-- Those of the audio. -/
def audioPages (info : OggMux S G) : List G × S :=
  if info.video_only then (info.audiopage.toList, info.vo_state)
  else (info.audiopage.toList ++ (L.pageouts info.vo_state).1, (L.pageouts info.vo_state).2)

variable (L) in
/-- What `oggmux_info` is when these pages have been written. -/
def written (video audio : List G × S) (info : OggMux S G) : OggMux S G :=
  { info with
    to_state := video.2
    vo_state := audio.2
    videopage := none
    audiopage := none
    video_bytesout := info.video_bytesout + (video.1.map fun g => (bytes L g).length).sum
    audio_bytesout := info.audio_bytesout + (audio.1.map fun g => (bytes L g).length).sum
    v_pkg := info.v_pkg - (video.1.map L.packets).sum
    a_pkg := info.a_pkg - (audio.1.map L.packets).sum }

/-- There are only pages of streams that there are. -/
structure Coherent (info : OggMux S G) : Prop where
  video : info.audio_only = true → info.videopage = none
  audio : info.video_only = true → info.audiopage = none

/-- What fetching a page of the video does: with none at hand there is none. -/
theorem fetch_video_cases (h : Coherent info) :
    (fetch_video L info = info ∧ info.videopage = none ∧
        videoPages L info = ([], info.to_state)) ∨
      ∃ g s, fetch_video L info = { info with to_state := s, videopage := some g } ∧
        info.audio_only = false ∧
        videoPages L info = (g :: (L.pageouts s).1, (L.pageouts s).2) := by
  rw [fetch_video, videoPages]
  cases ho : info.audio_only with
  | true =>
      have hnone := h.video ho
      exact Or.inl ⟨by simp, hnone, by simp [hnone]⟩
  | false =>
      cases hv : info.videopage with
      | some g => exact Or.inr ⟨g, info.to_state, by cases info; simp_all, rfl, by simp⟩
      | none =>
          cases hg : L.pageout info.to_state with
          | none => exact Or.inl ⟨by simp, rfl, by simp [Paging.pageouts_none hg]⟩
          | some r =>
              obtain ⟨g, s⟩ := r
              exact Or.inr ⟨g, s, by simp, rfl, by simp [Paging.pageouts_some hg]⟩

/-- The same of the audio. -/
theorem fetch_audio_cases (h : Coherent info) :
    (fetch_audio L info = info ∧ info.audiopage = none ∧
        audioPages L info = ([], info.vo_state)) ∨
      ∃ g s, fetch_audio L info = { info with vo_state := s, audiopage := some g } ∧
        info.video_only = false ∧
        audioPages L info = (g :: (L.pageouts s).1, (L.pageouts s).2) := by
  rw [fetch_audio, audioPages]
  cases ho : info.video_only with
  | true =>
      have hnone := h.audio ho
      exact Or.inl ⟨by simp, hnone, by simp [hnone]⟩
  | false =>
      cases hv : info.audiopage with
      | some g => exact Or.inr ⟨g, info.vo_state, by cases info; simp_all, rfl, by simp⟩
      | none =>
          cases hg : L.pageout info.vo_state with
          | none => exact Or.inl ⟨by simp, rfl, by simp [Paging.pageouts_none hg]⟩
          | some r =>
              obtain ⟨g, s⟩ := r
              exact Or.inr ⟨g, s, by simp, rfl, by simp [Paging.pageouts_some hg]⟩

/-- A round that writes a page of the video. -/
theorem oggmux_flush_video {g : G} (hg : (fetch_audio L (fetch_video L info)).videopage = some g)
    (ho : (fetch_audio L (fetch_video L info)).audio_only = false) :
    oggmux_flush L info e_o_s =
      ((oggmux_flush L (write_video_page L (fetch_audio L (fetch_video L info))).1 e_o_s).1,
        g :: (oggmux_flush L (write_video_page L (fetch_audio L (fetch_video L info))).1
          e_o_s).2) := by
  have hbest : best (fetch_audio L (fetch_video L info)) e_o_s = some .video := by
    simp [best, hg, ho]
  have hpage : (write_video_page L (fetch_audio L (fetch_video L info))).2 = [g] := by
    simp [write_video_page, hg]
  rw [oggmux_flush]
  simp only
  split
  next _ => rw [hpage]; rfl
  next h => simp [hbest] at h
  next h => simp [hbest] at h

/-- A round that writes a page of the audio. -/
theorem oggmux_flush_audio {g : G} (hv : (fetch_audio L (fetch_video L info)).videopage = none)
    (hg : (fetch_audio L (fetch_video L info)).audiopage = some g) :
    oggmux_flush L info e_o_s =
      ((oggmux_flush L (write_audio_page L (fetch_audio L (fetch_video L info))).1 e_o_s).1,
        g :: (oggmux_flush L (write_audio_page L (fetch_audio L (fetch_video L info))).1
          e_o_s).2) := by
  have hbest : best (fetch_audio L (fetch_video L info)) e_o_s = some .audio := by
    cases ho : (fetch_audio L (fetch_video L info)).audio_only <;> simp [best, hg, hv, ho]
  have hpage : (write_audio_page L (fetch_audio L (fetch_video L info))).2 = [g] := by
    simp [write_audio_page, hg]
  rw [oggmux_flush]
  simp only
  split
  next h => simp [hbest] at h
  next _ => rw [hpage]; rfl
  next h => simp [hbest] at h

/-- The last round. -/
theorem oggmux_flush_none (hv : (fetch_audio L (fetch_video L info)).videopage = none)
    (ha : (fetch_audio L (fetch_video L info)).audiopage = none) :
    oggmux_flush L info e_o_s = (fetch_audio L (fetch_video L info), []) := by
  have hbest : best (fetch_audio L (fetch_video L info)) e_o_s = none := by simp [best, hv, ha]
  rw [oggmux_flush]
  simp only
  split
  next h => simp [hbest] at h
  next h => simp [hbest] at h
  next _ => rfl

theorem videoPages_congr {info info' : OggMux S G} (ho : info.audio_only = info'.audio_only)
    (hv : info.videopage = info'.videopage) (hs : info.to_state = info'.to_state) :
    videoPages L info = videoPages L info' := by
  rw [videoPages, videoPages, ho, hv, hs]

theorem audioPages_congr {info info' : OggMux S G} (ho : info.video_only = info'.video_only)
    (ha : info.audiopage = info'.audiopage) (hs : info.vo_state = info'.vo_state) :
    audioPages L info = audioPages L info' := by
  rw [audioPages, audioPages, ho, ha, hs]

/-- With nothing to write nothing changes. -/
theorem written_nil (hv : info.videopage = none) (ha : info.audiopage = none) :
    written L ([], info.to_state) ([], info.vo_state) info = info := by
  cases info
  simp_all [written]

/-- A page of the video that has been written, and the pages that are written then. -/
theorem written_cons_video (g : G) (vs : List G) (s s' t : S) (a : Option G)
    (audio : List G × S) (info : OggMux S G) :
    written L (vs, s') audio
        { info with
          to_state := s
          vo_state := t
          videopage := none
          audiopage := a
          video_bytesout := info.video_bytesout + (bytes L g).length
          v_pkg := info.v_pkg - L.packets g } =
      written L (g :: vs, s') audio info := by
  simp only [written, List.map_cons, List.sum_cons, Nat.add_assoc, Nat.cast_add, Int.sub_sub]

/-- The same of the audio. -/
theorem written_cons_audio (g : G) (as : List G) (s t : S) (video : List G × S)
    (info : OggMux S G) :
    written L video (as, t)
        { info with
          vo_state := s
          audiopage := none
          audio_bytesout := info.audio_bytesout + (bytes L g).length
          a_pkg := info.a_pkg - L.packets g } =
      written L video (g :: as, t) info := by
  simp only [written, List.map_cons, List.sum_cons, Nat.add_assoc, Nat.cast_add, Int.sub_sub]

/-- Fetching a page of the audio moves it, and nothing else. -/
theorem fetch_audio_frame (h : Coherent info) :
    ∃ t a, fetch_audio L info = { info with vo_state := t, audiopage := a } ∧
      (info.video_only = true → a = none) ∧
      audioPages L { info with vo_state := t, audiopage := a } = audioPages L info := by
  rcases fetch_audio_cases (L := L) h with ⟨hfetch, -, -⟩ | ⟨g, s, hfetch, ho, haudio⟩
  · exact ⟨info.vo_state, info.audiopage, hfetch, h.audio, rfl⟩
  · refine ⟨s, some g, hfetch, fun h => absurd (ho.symm.trans h) Bool.false_ne_true, ?_⟩
    rw [haudio]
    simp [audioPages, ho]

variable (L) in
/-- A round that has written a page, and what is left for the next rounds. -/
structure Wrote (info : OggMux S G) (g : G) (next : OggMux S G) : Prop where
  coherent : Coherent next
  pending : pending L next < pending L info
  written : written L (videoPages L next) (audioPages L next) next =
    written L (videoPages L info) (audioPages L info) info
  pages : (videoPages L info).1 ++ (audioPages L info).1 =
    g :: ((videoPages L next).1 ++ (audioPages L next).1)

theorem pending_fetch :
    OggMux.pending L (fetch_audio L (fetch_video L info)) ≤ OggMux.pending L info :=
  Nat.le_trans (pending_fetch_audio _) (pending_fetch_video _)

/-- A page of the audio is written when there is none of the video. -/
theorem wrote_audio {g : G} {s : S} (hfetch : fetch_video L info = info)
    (hnone : info.videopage = none) (hvideo : videoPages L info = ([], info.to_state))
    (hfetch' : fetch_audio L info = { info with vo_state := s, audiopage := some g })
    (ho : info.video_only = false)
    (haudio : audioPages L info = (g :: (L.pageouts s).1, (L.pageouts s).2)) :
    Wrote L info g (write_audio_page L (fetch_audio L (fetch_video L info))).1 := by
  have hpage : fetch_audio L (fetch_video L info) =
      { info with vo_state := s, audiopage := some g } := by rw [hfetch, hfetch']
  have hbest : best (fetch_audio L (fetch_video L info)) false = some .audio := by
    simp [best, hpage, hnone]
  have hlt := pending_write_audio (L := L) hbest
  refine ⟨?_, Nat.lt_of_lt_of_le hlt pending_fetch, ?_, ?_⟩
  · rw [hpage]
    exact ⟨fun _ => hnone, fun _ => rfl⟩
  · rw [hpage, haudio, ← written_cons_audio g _ s]
    simp only [write_audio_page, audioPages, ho, Bool.false_eq_true, if_false, Option.toList_none,
      List.nil_append]
    rfl
  · rw [hpage, haudio, hvideo]
    have hsame : videoPages L (write_audio_page L { info with
        vo_state := s, audiopage := some g }).1 = ([], info.to_state) :=
      (videoPages_congr rfl rfl rfl).trans hvideo
    rw [hsame]
    simp [write_audio_page, audioPages, ho]

/-- A page of the video is written first. -/
theorem wrote_video {g : G} {s : S} (h : Coherent info)
    (hfetch : fetch_video L info = { info with to_state := s, videopage := some g })
    (ho : info.audio_only = false)
    (hvideo : videoPages L info = (g :: (L.pageouts s).1, (L.pageouts s).2)) :
    (fetch_audio L (fetch_video L info)).videopage = some g ∧
      (fetch_audio L (fetch_video L info)).audio_only = false ∧
      Wrote L info g (write_video_page L (fetch_audio L (fetch_video L info))).1 := by
  have hco : Coherent (fetch_video L info) := by
    rw [hfetch]
    exact ⟨fun hyes => absurd (ho.symm.trans hyes) Bool.false_ne_true, h.audio⟩
  obtain ⟨t, a, hmoved, hnone, haudio⟩ := fetch_audio_frame (L := L) hco
  have hpage : fetch_audio L (fetch_video L info) =
      { info with to_state := s, videopage := some g, vo_state := t, audiopage := a } := by
    rw [hmoved, hfetch]
  have hbest : best (fetch_audio L (fetch_video L info)) false = some .video := by
    cases hv : info.video_only <;> simp [best, hpage, ho, hv]
  have hlt := pending_write_video (L := L) hbest
  have hsame : audioPages L (write_video_page L { info with
      to_state := s, videopage := some g, vo_state := t, audiopage := a }).1 =
        audioPages L info := by
    have hmove : audioPages L (fetch_video L info) = audioPages L info := by
      rw [hfetch]
      exact audioPages_congr rfl rfl rfl
    rw [← hmove, ← haudio, hfetch]
    exact audioPages_congr rfl rfl rfl
  have hsmaller := Nat.lt_of_lt_of_le hlt pending_fetch
  rw [hpage] at hsmaller ⊢
  refine ⟨rfl, ho, ⟨fun _ => rfl, ?_⟩, hsmaller, ?_, ?_⟩
  · intro hyes
    refine hnone ?_
    rw [hfetch]
    exact hyes
  · rw [hsame, hvideo, ← written_cons_video g _ s _ t a]
    simp only [write_video_page, videoPages, ho, Bool.false_eq_true, if_false, Option.toList_none,
      List.nil_append]
  · rw [hsame, hvideo]
    simp [write_video_page, videoPages, ho]

/-- **One round** of a flush: there is nothing to write, or a page is written and the rest is for
the next rounds. -/
theorem oggmux_flush_step (h : Coherent info) (e_o_s : Bool) :
    (oggmux_flush L info e_o_s = (info, []) ∧ videoPages L info = ([], info.to_state) ∧
        audioPages L info = ([], info.vo_state) ∧ info.videopage = none ∧ info.audiopage = none) ∨
      ∃ g next, Wrote L info g next ∧ oggmux_flush L info e_o_s =
        ((oggmux_flush L next e_o_s).1, g :: (oggmux_flush L next e_o_s).2) := by
  rcases fetch_video_cases (L := L) h with ⟨hfetch, hnone, hvideo⟩ | ⟨g, s, hfetch, ho, hvideo⟩
  · rcases fetch_audio_cases (L := L) h with
      ⟨hfetch', hnone', haudio⟩ | ⟨g, s, hfetch', ho, haudio⟩
    · refine Or.inl ⟨?_, hvideo, haudio, hnone, hnone'⟩
      rw [oggmux_flush_none (by rw [hfetch, hfetch', hnone]) (by rw [hfetch, hfetch', hnone']),
        hfetch, hfetch']
    · refine Or.inr ⟨g, _, wrote_audio hfetch hnone hvideo hfetch' ho haudio, ?_⟩
      exact oggmux_flush_audio (by rw [hfetch, hfetch', hnone]) (by rw [hfetch, hfetch'])
  · obtain ⟨hpage, ho', hwrote⟩ := wrote_video h hfetch ho hvideo
    exact Or.inr ⟨g, _, hwrote, oggmux_flush_video hpage ho'⟩

/-- **What a flush writes**: first the pages of the video and then those of the audio, all for
which there is enough, whether the streams are at their end or not. -/
theorem oggmux_flush_eq (h : Coherent info) (e_o_s : Bool) :
    oggmux_flush L info e_o_s =
      (written L (videoPages L info) (audioPages L info) info,
        (videoPages L info).1 ++ (audioPages L info).1) := by
  induction hn : pending L info using Nat.strongRecOn generalizing info with
  | ind n ih =>
      rcases oggmux_flush_step (L := L) h e_o_s with
        ⟨hflush, hvideo, haudio, hv, ha⟩ | ⟨g, next, hwrote, hflush⟩
      · rw [hflush, hvideo, haudio, written_nil hv ha]
        rfl
      · rw [hflush, ih _ (hn ▸ hwrote.pending) hwrote.coherent rfl, hwrote.written, hwrote.pages]

/-! ### What is written first -/

variable (L) in
/-- The headers of the audio, in a new stream. -/
def vorbisHeaders (k : BitVec 32) (c : Codecs) : List G × S :=
  let first := L.flushes (L.packetin (L.stream_init k) c.vorbis_header)
  let rest := L.flushes (L.packetin (L.packetin first.2 c.vorbis_comm) c.vorbis_code)
  (first.1 ++ rest.1, rest.2)

variable (L) in
/-- The headers of the video but for the first one, in a stream from which that was taken. -/
def theoraHeaders (c : Codecs) (s : S) : List G × S :=
  L.flushes (L.packetin (L.packetin s c.theora_comment) c.theora_tables)

/-- The fisbones of streams with these serial numbers. -/
def fisbonesOf (serials : BitVec 32 × BitVec 32 × BitVec 32) (c : Codecs) (info : OggMux S G) :
    List OggPacket :=
  ((SkeletonInfo.mk info.audio_only info.video_only serials.1 serials.2.1 info.fps_numerator
    info.fps_denominator c.granule_shift info.sample_rate).add_fisbone_packet calloc).map
      fun m => ⟨m.take 80, false, false, 0⟩

variable {serials : BitVec 32 × BitVec 32 × BitVec 32} {c : Codecs}

/-- The fisbones have the serial numbers of the streams that there are. -/
theorem fisbones_eq (ht : L.serialno info.to_state = serials.1)
    (hv : info.video_only = false → L.serialno info.vo_state = serials.2.1) :
    fisbones L c info = fisbonesOf serials c info := by
  cases ho : info.video_only with
  | true => simp [fisbones, fisbonesOf, skeletonInfo, SkeletonInfo.add_fisbone_packet,
      SkeletonInfo.theora_fisbone, ht, ho]
  | false => simp [fisbones, fisbonesOf, skeletonInfo, SkeletonInfo.add_fisbone_packet,
      SkeletonInfo.theora_fisbone, SkeletonInfo.vorbis_fisbone, ht, hv ho, ho]

/-- **What is written first**, by an encoder with video: the first pages of the skeleton and of
the video, the headers of the audio, if there is any, the fisbones, the other headers of the
video and the end of the skeleton. -/
theorem oggmux_init_eq (L : Libogg S G) (serials : BitVec 32 × BitVec 32 × BitVec 32) (c : Codecs)
    (ho : info.audio_only = false) (hs : info.with_skeleton = true) :
    ∃ f s₁ t s₂ e s₃,
      L.pageout (L.packetin (L.stream_init serials.2.2) (fishead c)) = some (f, s₁) ∧
      L.pageout (L.packetin (L.stream_init serials.1) c.theora_header) = some (t, s₂) ∧
      L.flush (L.packetin (L.flushes ((fisbonesOf serials c info).foldl L.packetin s₁)).2
        skeleton_eos) = some (e, s₃) ∧
      oggmux_init L serials c info =
        some ({ info with
            to_state := (theoraHeaders L c s₂).2
            vo_state := if info.video_only then info.vo_state
              else (vorbisHeaders L serials.2.1 c).2
            so_state := s₃ },
          [f] ++ [t] ++ (if info.video_only then [] else (vorbisHeaders L serials.2.1 c).1) ++
            (L.flushes ((fisbonesOf serials c info).foldl L.packetin s₁)).1 ++
            (theoraHeaders L c s₂).1 ++ [e]) := by
  obtain ⟨f, s₁, hf⟩ := L.exists_pageout_packetin (L.begun_init serials.2.2) (fishead c)
  obtain ⟨t, s₂, ht⟩ := L.exists_pageout_packetin (L.begun_init serials.1) c.theora_header
  obtain ⟨e, s₃, he⟩ := L.exists_flush_packetin
    (L.flushes ((fisbonesOf serials c info).foldl L.packetin s₁)).2 skeleton_eos
  refine ⟨f, s₁, t, s₂, e, s₃, hf, ht, he, ?_⟩
  have hto : L.serialno (L.packetin (L.packetin s₂ c.theora_comment) c.theora_tables) =
      serials.1 := by
    rw [L.serialno_packetin, L.serialno_packetin, (L.pageout_took _ _ _ ht).serialno,
      L.serialno_packetin, L.serialno_init]
  have hvo : L.serialno (vorbisHeaders L serials.2.1 c).2 = serials.2.1 := by
    rw [vorbisHeaders, (Paging.History.flushes _ _).serialno, L.serialno_packetin,
      L.serialno_packetin, (Paging.History.flushes _ _).serialno, L.serialno_packetin,
      L.serialno_init]
  -- `oggmux_info` after each of the parts
  obtain ⟨i₁, hi₁⟩ : ∃ i, i = { init_streams L serials info with so_state := s₁ } := ⟨_, rfl⟩
  obtain ⟨i₂, hi₂⟩ : ∃ i, i = { i₁ with
    to_state := L.packetin (L.packetin s₂ c.theora_comment) c.theora_tables } := ⟨_, rfl⟩
  obtain ⟨i₃, hi₃⟩ : ∃ i, i = { i₂ with
    vo_state := if info.video_only then info.vo_state else (vorbisHeaders L serials.2.1 c).2 } :=
      ⟨_, rfl⟩
  have h₁ : write_fishead L c (init_streams L serials info) = some (i₁, [f]) := by
    simp [write_fishead, init_streams, hi₁, hs, hf]
  have h₂ : write_theora_header L c i₁ = some (i₂, [t]) := by
    simp [write_theora_header, init_streams, hi₁, hi₂, ho, ht]
  have h₃ : write_vorbis_headers L c i₂ =
      (i₃, if info.video_only then [] else (vorbisHeaders L serials.2.1 c).1) := by
    cases hv : info.video_only <;>
      simp [write_vorbis_headers, init_streams, hi₁, hi₂, hi₃, hv, vorbisHeaders]
  have hvo' (h : i₃.video_only = false) : L.serialno i₃.vo_state = serials.2.1 := by
    have hv : info.video_only = false := by simpa [hi₁, hi₂, hi₃, init_streams] using h
    simp [hi₃, hv, hvo]
  have hbones : fisbones L c i₃ = fisbonesOf serials c info := by
    rw [fisbones_eq (by simp [hi₂, hi₃, hto]) hvo']
    simp [fisbonesOf, hi₁, hi₂, hi₃, init_streams]
  have hso : i₃.so_state = s₁ := by rw [hi₃, hi₂, hi₁]
  have hskeleton : i₃.with_skeleton = true := by simp [hi₁, hi₂, hi₃, init_streams, hs]
  have h₄ : write_fisbones L c i₃ =
      ({ i₃ with so_state := (L.flushes ((fisbonesOf serials c info).foldl L.packetin s₁)).2 },
        (L.flushes ((fisbonesOf serials c info).foldl L.packetin s₁)).1) := by
    rw [write_fisbones, if_pos hskeleton, hbones, hso]
  simp only [oggmux_init, h₁, h₂, h₃, h₄, Option.bind_eq_bind, Option.bind_some]
  simp [write_theora_headers, write_skeleton_eos, theoraHeaders, he, hi₁, hi₂, hi₃, init_streams,
    ho, hs]

end OggMux

end FreeJ
