import FreeJ.OggStream

/-!
# The File of an Ogg Theora Encoder

The life of an `OggTheoraEncoder`: `oggmux_init` when it is initialised, a flush of the
multiplexer for each frame that `encode_frame` encodes, and the flush of its destructor. The
packets of a frame are those that the encoders of the video and the audio give for it.

## Main results

* `ogg_grouped`: the first pages of all streams come before all other pages.
* `ogg_demux`: each stream is in the file as if there was no other one.
* `ogg_truncated`: the flush of the destructor writes nothing, so that packets which wait for
  others to fill a page are lost, and the streams have no end.
-/

namespace FreeJ

variable {S G : Type*}

/-- The packets of the video and of the audio for a frame. -/
structure OggFrame where
  video : List OggPacket
  audio : List OggPacket

namespace OggMux

variable (L : Libogg S G)

/-- `init_info` and `OggTheoraEncoder::init`, with streams that are not there yet. -/
def start (use_audio : Bool) (sample_rate : BitVec 32) (s : S) : OggMux S G where
  audio_only := false
  video_only := !use_audio
  with_skeleton := true
  fps_numerator := 25
  fps_denominator := 1
  sample_rate := sample_rate
  to_state := s
  vo_state := s
  so_state := s
  videopage := none
  audiopage := none
  video_bytesout := 0
  audio_bytesout := 0
  v_pkg := 0
  a_pkg := 0

/-- `OggTheoraEncoder::encode_frame`, the pages of which are written. -/
def encode_frame (info : OggMux S G) (f : OggFrame) : OggMux S G × List G :=
  oggmux_flush L
    (if info.video_only then oggmux_add_video L f.video info
      else oggmux_add_audio L f.audio (oggmux_add_video L f.video info)) false

/-- Frames, one after the other. -/
def encode_frames (info : OggMux S G) : List OggFrame → OggMux S G × List (List G)
  | [] => (info, [])
  | f :: fs =>
    ((encode_frames (encode_frame L info f).1 fs).1,
      (encode_frame L info f).2 :: (encode_frames (encode_frame L info f).1 fs).2)

/-- The pages of an encoder. -/
structure Pages (G : Type*) where
  header : List G
  frames : List (List G)
  trailer : List G

/-- All pages, in order. -/
def Pages.all (p : Pages G) : List G := p.header ++ p.frames.flatten ++ p.trailer

/-- The life of an encoder: `oggmux_init`, frames, and `~OggTheoraEncoder`. -/
def lifetime (serials : BitVec 32 × BitVec 32 × BitVec 32) (c : Codecs) (info : OggMux S G)
    (fs : List OggFrame) : Option (OggMux S G × Pages G) :=
  (oggmux_init L serials c info).map fun r =>
    let frames := encode_frames L r.1 fs
    let last := oggmux_flush L frames.1 true
    (last.1, ⟨r.2, frames.2, last.2⟩)

/-- No page waits. -/
structure Idle (info : OggMux S G) : Prop where
  both : info.audio_only = false
  video : info.videopage = none
  audio : info.audiopage = none

variable {L} {info info' : OggMux S G} {f : OggFrame} {fs : List OggFrame}

theorem Idle.coherent (h : Idle info) : Coherent info :=
  ⟨fun _ => h.video, fun _ => h.audio⟩

variable (L) in
/-- The packets of some frames have been put in, and pages `vs` and `as` have been written. -/
structure Counted (info : OggMux S G) (packets : ℕ × ℕ) (info' : OggMux S G) (vs as : List G) :
    Prop where
  v_pkg : info'.v_pkg = info.v_pkg + packets.1 - (vs.map L.packets).sum
  a_pkg : info'.a_pkg = info.a_pkg + packets.2 - (as.map L.packets).sum
  video_bytesout : info'.video_bytesout =
    info.video_bytesout + (vs.map fun g => (bytes L g).length).sum
  audio_bytesout : info'.audio_bytesout =
    info.audio_bytesout + (as.map fun g => (bytes L g).length).sum

/-- The packets of the audio that are put in. -/
def audioOf (info : OggMux S G) (f : OggFrame) : List OggPacket :=
  if info.video_only then [] else f.audio

variable (L) in
/-- The pages of a frame, and what `oggmux_info` is after it. -/
structure Framed (info : OggMux S G) (f : OggFrame) (info' : OggMux S G) (vs as : List G) :
    Prop where
  idle : Idle info'
  video_only : info'.video_only = info.video_only
  so_state : info'.so_state = info.so_state
  video : L.pageouts (f.video.foldl L.packetin info.to_state) = (vs, info'.to_state)
  no_audio : info.video_only = true → as = [] ∧ info'.vo_state = info.vo_state
  audio : info.video_only = false →
    L.pageouts (f.audio.foldl L.packetin info.vo_state) = (as, info'.vo_state)
  counted : Counted L info (f.video.length, (info.audioOf f).length) info' vs as

/-- A flush of an encoder with video. -/
theorem oggmux_flush_framed (h : Idle info) (e_o_s : Bool) :
    (oggmux_flush L info e_o_s).2 = (L.pageouts info.to_state).1 ++
        (if info.video_only then [] else (L.pageouts info.vo_state).1) ∧
      Framed L info ⟨[], []⟩ (oggmux_flush L info e_o_s).1 (L.pageouts info.to_state).1
        (if info.video_only then [] else (L.pageouts info.vo_state).1) := by
  have hvideo : videoPages L info = L.pageouts info.to_state := by
    simp [videoPages, h.both, h.video]
  have haudio : audioPages L info =
      (if info.video_only then [] else (L.pageouts info.vo_state).1,
        if info.video_only then info.vo_state else (L.pageouts info.vo_state).2) := by
    cases hv : info.video_only <;> simp [audioPages, hv, h.audio]
  rw [oggmux_flush_eq h.coherent, hvideo, haudio]
  refine ⟨rfl, ⟨⟨h.both, rfl, rfl⟩, rfl, rfl, rfl, fun hv => ?_, fun hv => ?_,
    ⟨?_, ?_, rfl, rfl⟩⟩⟩
  · simp [written, hv]
  · simp [written, hv]
  · simp [written]
  · cases hv : info.video_only <;> simp [written, audioOf, hv]

/-- **A frame** is the pages of its video and then those of its audio. -/
theorem encode_frame_framed (h : Idle info) (f : OggFrame) :
    ∃ vs as, (encode_frame L info f).2 = vs ++ as ∧
      Framed L info f (encode_frame L info f).1 vs as := by
  cases hv : info.video_only with
  | true =>
      have hidle : Idle (oggmux_add_video L f.video info) := ⟨h.both, h.video, h.audio⟩
      have hv' : (oggmux_add_video L f.video info).video_only = true := hv
      obtain ⟨hpages, hframed⟩ := oggmux_flush_framed (L := L) hidle false
      rw [encode_frame, hv, if_pos rfl]
      refine ⟨_, _, hpages, hframed.idle, hframed.video_only, hframed.so_state, hframed.video,
        fun _ => hframed.no_audio hv', fun hno => absurd (hv.symm.trans hno) (by decide), ?_⟩
      obtain ⟨hvp, hap, hvb, hab⟩ := hframed.counted
      refine ⟨hvp.trans ?_, hap.trans ?_, hvb, hab⟩
      · simp [oggmux_add_video]
      · simp [oggmux_add_video, audioOf, hv]
  | false =>
      have hidle : Idle (oggmux_add_audio L f.audio (oggmux_add_video L f.video info)) :=
        ⟨h.both, h.video, h.audio⟩
      have hv' : (oggmux_add_audio L f.audio (oggmux_add_video L f.video info)).video_only =
        false := hv
      obtain ⟨hpages, hframed⟩ := oggmux_flush_framed (L := L) hidle false
      rw [encode_frame, hv, if_neg Bool.false_ne_true]
      refine ⟨_, _, hpages, hframed.idle, hframed.video_only, hframed.so_state, hframed.video,
        fun hyes => absurd (hv.symm.trans hyes) (by decide), fun _ => hframed.audio hv', ?_⟩
      obtain ⟨hvp, hap, hvb, hab⟩ := hframed.counted
      refine ⟨hvp.trans ?_, hap.trans ?_, hvb, hab⟩
      · simp [oggmux_add_audio, oggmux_add_video]
      · simp [oggmux_add_audio, oggmux_add_video, audioOf, hv]

/-! ### Frames -/

/-- Counts add up. -/
theorem Counted.trans {i₁ i₂ i₃ : OggMux S G} {n n' : ℕ × ℕ} {vs vs' as as' : List G}
    (h : Counted L i₁ n i₂ vs as) (h' : Counted L i₂ n' i₃ vs' as') :
    Counted L i₁ (n.1 + n'.1, n.2 + n'.2) i₃ (vs ++ vs') (as ++ as') where
  v_pkg := by
    rw [h'.v_pkg, h.v_pkg, List.map_append, List.sum_append]
    omega
  a_pkg := by
    rw [h'.a_pkg, h.a_pkg, List.map_append, List.sum_append]
    omega
  video_bytesout := by
    rw [h'.video_bytesout, h.video_bytesout, List.map_append, List.sum_append, Nat.add_assoc]
  audio_bytesout := by
    rw [h'.audio_bytesout, h.audio_bytesout, List.map_append, List.sum_append, Nat.add_assoc]

variable (L) in
/-- The pages of some frames, those of the video and of the audio for each of them, and what
`oggmux_info` is after them. -/
structure Ran (info : OggMux S G) (fs : List OggFrame) (info' : OggMux S G)
    (parts : List (List G × List G)) : Prop where
  idle : Idle info'
  video_only : info'.video_only = info.video_only
  so_state : info'.so_state = info.so_state
  video : L.feed info.to_state (fs.map OggFrame.video) =
    ((parts.map Prod.fst).flatten, info'.to_state)
  no_audio : info.video_only = true →
    (parts.map Prod.snd).flatten = [] ∧ info'.vo_state = info.vo_state
  audio : info.video_only = false →
    L.feed info.vo_state (fs.map OggFrame.audio) = ((parts.map Prod.snd).flatten, info'.vo_state)
  counted : Counted L info
    ((fs.map fun f => f.video.length).sum, (fs.map fun f => (info.audioOf f).length).sum) info'
    (parts.map Prod.fst).flatten (parts.map Prod.snd).flatten

/-- **Any number of frames.** -/
theorem encode_frames_ran (h : Idle info) (fs : List OggFrame) :
    ∃ parts, (encode_frames L info fs).2 = parts.map (fun p => p.1 ++ p.2) ∧
      Ran L info fs (encode_frames L info fs).1 parts := by
  induction fs generalizing info with
  | nil =>
      refine ⟨[], rfl, ⟨h, rfl, rfl, rfl, fun _ => ⟨rfl, rfl⟩, fun _ => rfl,
        ⟨?_, ?_, rfl, rfl⟩⟩⟩ <;> simp [encode_frames]
  | cons f fs ih =>
      obtain ⟨vs, as, hpages, hframed⟩ := encode_frame_framed (L := L) h f
      obtain ⟨parts, hrest, hran⟩ := ih hframed.idle
      refine ⟨(vs, as) :: parts, ?_, hran.idle, hran.video_only.trans hframed.video_only,
        hran.so_state.trans hframed.so_state, ?_, ?_, ?_, ?_⟩
      · rw [encode_frames, hpages, hrest]
        rfl
      · simp only [List.map_cons, Paging.feed, hframed.video, hran.video, List.flatten_cons]
        rfl
      · intro hv
        obtain ⟨hnil, hvo⟩ := hframed.no_audio hv
        obtain ⟨hnil', hvo'⟩ := hran.no_audio (hframed.video_only.trans hv)
        exact ⟨by simp only [List.map_cons, List.flatten_cons, hnil, hnil', List.nil_append],
          hvo'.trans hvo⟩
      · intro hv
        have hrest := hran.audio (hframed.video_only.trans hv)
        simp only [List.map_cons, Paging.feed, hframed.audio hv, hrest, List.flatten_cons]
        rfl
      · have hsame : (encode_frame L info f).1.audioOf = info.audioOf := by
          funext g
          rw [audioOf, audioOf, hframed.video_only]
        have hcounted := hframed.counted.trans hran.counted
        rw [hsame] at hcounted
        exact hcounted

variable (L) in
/-- There is not enough for a page in the streams. -/
structure Quiet (info : OggMux S G) : Prop where
  idle : Idle info
  video : L.pageout info.to_state = none
  audio : info.video_only = false → L.pageout info.vo_state = none

/-- After a frame there is not. -/
theorem Framed.quiet {vs as : List G} (h : Framed L info f info' vs as) : Quiet L info' where
  idle := h.idle
  video := by
    have hlast := L.pageout_pageouts (f.video.foldl L.packetin info.to_state)
    rwa [h.video] at hlast
  audio := by
    intro hv
    have hlast := L.pageout_pageouts (f.audio.foldl L.packetin info.vo_state)
    rwa [h.audio (h.video_only ▸ hv)] at hlast

/-- Nor after any number of frames. -/
theorem encode_frames_quiet (h : Quiet L info) (fs : List OggFrame) :
    Quiet L (encode_frames L info fs).1 := by
  induction fs generalizing info with
  | nil => exact h
  | cons f fs ih =>
      obtain ⟨vs, as, -, hframed⟩ := encode_frame_framed (L := L) h.idle f
      exact ih hframed.quiet

/-- **The flush of the destructor** has nothing to write. -/
theorem Quiet.flush (h : Quiet L info) (e_o_s : Bool) : oggmux_flush L info e_o_s = (info, []) := by
  have hvideo : videoPages L info = ([], info.to_state) := by
    simp [videoPages, h.idle.both, h.idle.video, Paging.pageouts_none h.video]
  have haudio : audioPages L info = ([], info.vo_state) := by
    cases hv : info.video_only with
    | true => simp [audioPages, hv, h.idle.audio]
    | false => simp [audioPages, hv, h.idle.audio, Paging.pageouts_none (h.audio hv)]
  rw [oggmux_flush_eq h.idle.coherent, hvideo, haudio, written_nil h.idle.video h.idle.audio]
  rfl

/-! ### The life of an encoder -/

variable {serials : BitVec 32 × BitVec 32 × BitVec 32} {c : Codecs}

variable (L) in
/-- The pages of the video when there is no other stream. -/
def theora_alone (k : BitVec 32) (c : Codecs) (frames : List (List OggPacket)) : List G :=
  match L.pageout (L.packetin (L.stream_init k) c.theora_header) with
  | none => []
  | some (t, s) => t :: ((theoraHeaders L c s).1 ++ (L.feed (theoraHeaders L c s).2 frames).1)

variable (L) in
/-- The pages of the audio when there is no other stream. -/
def vorbis_alone (k : BitVec 32) (c : Codecs) (frames : List (List OggPacket)) : List G :=
  (vorbisHeaders L k c).1 ++ (L.feed (vorbisHeaders L k c).2 frames).1

variable (L) in
/-- The pages of a skeleton with these fisbones when there is no other stream. -/
def skeleton_alone (k : BitVec 32) (c : Codecs) (bones : List OggPacket) : List G :=
  match L.pageout (L.packetin (L.stream_init k) (fishead c)) with
  | none => []
  | some (f, s) =>
    let r := L.flushes (bones.foldl L.packetin s)
    f :: (r.1 ++ ((L.flush (L.packetin r.2 skeleton_eos)).map Prod.fst).toList)

variable (L) in
/-- The streams in the life of an encoder: what was put into them and the pages that were taken
from them, `f` and `t` the first ones of the skeleton and of the video. -/
structure Streams (serials : BitVec 32 × BitVec 32 × BitVec 32) (c : Codecs) (info : OggMux S G)
    (fs : List OggFrame) (last : OggMux S G) (f t e : G) (vorbis bones tables : List G)
    (parts : List (List G × List G)) : Prop where
  skeleton_history : L.History (L.stream_init serials.2.2)
    ([fishead c] ++ fisbonesOf serials c info ++ [skeleton_eos]) (f :: (bones ++ [e])) last.so_state
  skeleton_eq : skeleton_alone L serials.2.2 c (fisbonesOf serials c info) = f :: (bones ++ [e])
  theora_history : L.History (L.stream_init serials.1)
    ([c.theora_header, c.theora_comment, c.theora_tables] ++ (fs.map OggFrame.video).flatten)
    (t :: (tables ++ (parts.map Prod.fst).flatten)) last.to_state
  theora_eq : theora_alone L serials.1 c (fs.map OggFrame.video) =
    t :: (tables ++ (parts.map Prod.fst).flatten)
  no_vorbis : info.video_only = true → vorbis ++ (parts.map Prod.snd).flatten = []
  vorbis_history : info.video_only = false → L.History (L.stream_init serials.2.1)
    ([c.vorbis_header, c.vorbis_comm, c.vorbis_code] ++ (fs.map OggFrame.audio).flatten)
    (vorbis ++ (parts.map Prod.snd).flatten) last.vo_state
  vorbis_eq : info.video_only = false →
    vorbis_alone L serials.2.1 c (fs.map OggFrame.audio) =
      vorbis ++ (parts.map Prod.snd).flatten
  vorbis_ne_nil : info.video_only = false → vorbis ≠ []
  theora_packets : ((t :: tables).map L.packets).sum = 3
  vorbis_packets : info.video_only = false → (vorbis.map L.packets).sum = 3

/-- The headers of the audio are on pages. -/
theorem vorbisHeaders_history (L : Libogg S G) (k : BitVec 32) (c : Codecs) :
    L.History (L.stream_init k) [c.vorbis_header, c.vorbis_comm, c.vorbis_code]
        (vorbisHeaders L k c).1 (vorbisHeaders L k c).2 ∧
      (vorbisHeaders L k c).1 ≠ [] ∧ L.fill (vorbisHeaders L k c).2 = 0 := by
  have hheader := Paging.History.packetin L.toPaging (L.stream_init k) c.vorbis_header
  have hfirst := Paging.History.flushes L.toPaging (L.packetin (L.stream_init k) c.vorbis_header)
  have hrest := Paging.History.packetins L.toPaging
    (L.flushes (L.packetin (L.stream_init k) c.vorbis_header)).2 [c.vorbis_comm, c.vorbis_code]
  have hpages := (hheader.trans hfirst).trans (hrest.trans (Paging.History.flushes L.toPaging _))
  refine ⟨by simpa [vorbisHeaders] using hpages, fun hnil => ?_, L.fill_flushes _⟩
  have hfirst_nil := (List.append_eq_nil_iff.mp hnil).1
  exact L.flushes_packetin_ne_nil _ _ hfirst_nil

/-- The other headers of the video are on pages. -/
theorem theoraHeaders_history (L : Libogg S G) (c : Codecs) (s : S) :
    L.History s [c.theora_comment, c.theora_tables] (theoraHeaders L c s).1
        (theoraHeaders L c s).2 ∧ L.fill (theoraHeaders L c s).2 = 0 := by
  have hin := Paging.History.packetins L.toPaging s [c.theora_comment, c.theora_tables]
  exact ⟨by simpa [theoraHeaders] using hin.trans (Paging.History.flushes L.toPaging _),
    L.fill_flushes _⟩

/-- The pages of the skeleton. -/
theorem skeleton_history {k : BitVec 32} {bones : List OggPacket} {f e : G} {s₁ s₃ : S}
    (hf : L.pageout (L.packetin (L.stream_init k) (fishead c)) = some (f, s₁))
    (he : L.flush (L.packetin (L.flushes (bones.foldl L.packetin s₁)).2 skeleton_eos) =
      some (e, s₃)) :
    L.History (L.stream_init k) ([fishead c] ++ bones ++ [skeleton_eos])
        (f :: ((L.flushes (bones.foldl L.packetin s₁)).1 ++ [e])) s₃ ∧
      skeleton_alone L k c bones = f :: ((L.flushes (bones.foldl L.packetin s₁)).1 ++ [e]) := by
  have hhead := (Paging.History.packetin L.toPaging (L.stream_init k) (fishead c)).trans
    (.took (L.pageout_took _ _ _ hf))
  have hbones := (Paging.History.packetins L.toPaging s₁ bones).trans
    (Paging.History.flushes L.toPaging _)
  have heos := (Paging.History.packetin L.toPaging
    (L.flushes (bones.foldl L.packetin s₁)).2 skeleton_eos).trans (.took (L.flush_took _ _ _ he))
  constructor
  · simpa using (hhead.trans hbones).trans heos
  · simp [skeleton_alone, hf, he]

/-- The pages of the video. -/
theorem theora_history {k : BitVec 32} {t : G} {s₂ : S}
    (ht : L.pageout (L.packetin (L.stream_init k) c.theora_header) = some (t, s₂))
    (frames : List (List OggPacket)) :
    L.History (L.stream_init k)
        ([c.theora_header, c.theora_comment, c.theora_tables] ++ frames.flatten)
        (t :: ((theoraHeaders L c s₂).1 ++ (L.feed (theoraHeaders L c s₂).2 frames).1))
        (L.feed (theoraHeaders L c s₂).2 frames).2 ∧
      theora_alone L k c frames =
        t :: ((theoraHeaders L c s₂).1 ++ (L.feed (theoraHeaders L c s₂).2 frames).1) := by
  have hhead := (Paging.History.packetin L.toPaging (L.stream_init k) c.theora_header).trans
    (.took (L.pageout_took _ _ _ ht))
  have hrest := (theoraHeaders_history L c s₂).1.trans (Paging.History.feed L.toPaging _ frames)
  constructor
  · simpa using hhead.trans hrest
  · simp [theora_alone, ht]

/-- **The life of an encoder**, by its streams. The flush of the destructor writes nothing. -/
theorem lifetime_streams (L : Libogg S G) (serials : BitVec 32 × BitVec 32 × BitVec 32)
    (c : Codecs) (h : Idle info) (hs : info.with_skeleton = true) (fs : List OggFrame) :
    ∃ last f t e vorbis bones tables parts,
      lifetime L serials c info fs =
        some (last, ⟨[f] ++ [t] ++ vorbis ++ bones ++ tables ++ [e],
          parts.map (fun p => p.1 ++ p.2), []⟩) ∧
      Streams L serials c info fs last f t e vorbis bones tables parts ∧
      Counted L info
        ((fs.map fun f => f.video.length).sum, (fs.map fun f => (info.audioOf f).length).sum) last
        (parts.map Prod.fst).flatten (parts.map Prod.snd).flatten := by
  obtain ⟨f, s₁, t, s₂, e, s₃, hf, ht, he, hinit⟩ :=
    oggmux_init_eq L serials c h.both hs
  obtain ⟨i₁, hi₁⟩ : ∃ i, i = { info with
    to_state := (theoraHeaders L c s₂).2
    vo_state := if info.video_only then info.vo_state else (vorbisHeaders L serials.2.1 c).2
    so_state := s₃ } := ⟨_, rfl⟩
  rw [← hi₁] at hinit
  obtain ⟨hvorbis, hne, hfill⟩ := vorbisHeaders_history L serials.2.1 c
  have hvideo_only : i₁.video_only = info.video_only := by rw [hi₁]
  have hvo (hv : info.video_only = false) : i₁.vo_state = (vorbisHeaders L serials.2.1 c).2 := by
    rw [hi₁]
    simp [hv]
  have hquiet : Quiet L i₁ := by
    refine ⟨?_, ?_, fun hv => ?_⟩
    · subst hi₁
      exact ⟨h.both, h.video, h.audio⟩
    · rw [hi₁]
      exact Paging.pageout_of_fill (theoraHeaders_history L c s₂).2
    · rw [hvo (hvideo_only ▸ hv)]
      exact Paging.pageout_of_fill hfill
  obtain ⟨parts, hpages, hran⟩ := encode_frames_ran (L := L) hquiet.idle fs
  have hlast := (encode_frames_quiet hquiet fs).flush true
  obtain ⟨hskeleton, hskeleton_eq⟩ := skeleton_history hf he
  obtain ⟨htheora, htheora_eq⟩ := theora_history ht (fs.map OggFrame.video)
  have hto : i₁.to_state = (theoraHeaders L c s₂).2 := by rw [hi₁]
  have hvideo := hran.video
  rw [hto] at hvideo
  rw [hvideo] at htheora htheora_eq
  refine ⟨(encode_frames L i₁ fs).1, f, t, e,
    if info.video_only then [] else (vorbisHeaders L serials.2.1 c).1, _, _, parts, ?_,
    ⟨?_, hskeleton_eq, htheora, htheora_eq, fun hv => ?_, fun hv => ?_, fun hv => ?_,
      fun hv => ?_, ?_, fun hv => ?_⟩, ?_⟩
  · rw [lifetime, hinit]
    simp [hlast, hpages]
  · rw [hran.so_state, hi₁]
    exact hskeleton
  · rw [if_pos hv, (hran.no_audio (hvideo_only.trans hv)).1]
    rfl
  · have haudio := hran.audio (hvideo_only.trans hv)
    rw [hvo hv] at haudio
    have hpages' := hvorbis.trans (Paging.History.feed L.toPaging _ (fs.map OggFrame.audio))
    rw [haudio] at hpages'
    simpa [hv] using hpages'
  · have haudio := hran.audio (hvideo_only.trans hv)
    rw [hvo hv] at haudio
    simp [vorbis_alone, haudio, hv]
  · simpa [hv] using hne
  · -- the headers are on pages, so that no packet waits
    have hhead := (Paging.History.packetin L.toPaging (L.stream_init serials.1)
      c.theora_header).trans (.took (L.pageout_took _ _ _ ht))
    have hwait := (hhead.trans (theoraHeaders_history L c s₂).1).waiting
    have hdone := L.waiting_le (theoraHeaders L c s₂).2
    rw [(theoraHeaders_history L c s₂).2] at hdone
    rw [L.waiting_init] at hwait
    simpa [Nat.le_zero.mp hdone] using hwait.symm
  · have hwait := hvorbis.waiting
    have hdone := L.waiting_le (vorbisHeaders L serials.2.1 c).2
    rw [hfill] at hdone
    rw [L.waiting_init] at hwait
    simpa [hv, Nat.le_zero.mp hdone] using hwait.symm
  · have hcounted := hran.counted
    have hsame : i₁.audioOf = info.audioOf := by
      funext g
      rw [audioOf, audioOf, hvideo_only]
    rw [hsame] at hcounted
    obtain ⟨hvp, hap, hvb, hab⟩ := hcounted
    subst hi₁
    exact ⟨hvp, hap, hvb, hab⟩

/-- The state before `oggmux_init`. -/
theorem start_idle (use_audio : Bool) (sample_rate : BitVec 32) (s : S) :
    Idle (start use_audio sample_rate s : OggMux S G) := ⟨rfl, rfl, rfl⟩

/-- Pages that alternate, and those of each stream. -/
theorem perm_parts (parts : List (List G × List G)) :
    (parts.map fun p => p.1 ++ p.2).flatten.Perm
      ((parts.map Prod.fst).flatten ++ (parts.map Prod.snd).flatten) := by
  induction parts with
  | nil => exact .refl _
  | cons p parts ih =>
      simp only [List.map_cons, List.flatten_cons, List.append_assoc]
      refine List.Perm.append_left p.1 ?_
      refine (List.Perm.append_left p.2 ih).trans ?_
      rw [← List.append_assoc, ← List.append_assoc]
      exact List.Perm.append_right _ List.perm_append_comm

/-- A page of a frame is one of its streams. -/
theorem mem_parts {parts : List (List G × List G)} {g : G}
    (h : g ∈ (parts.map fun p => p.1 ++ p.2).flatten) :
    g ∈ (parts.map Prod.fst).flatten ∨ g ∈ (parts.map Prod.snd).flatten :=
  List.mem_append.mp ((perm_parts parts).mem_iff.mp h)

/-- The first of two streams whose pages alternate. -/
theorem demux_fst {k : BitVec 32} {parts : List (List G × List G)}
    (hfst : ∀ g ∈ (parts.map Prod.fst).flatten, L.page_serialno g = k)
    (hsnd : ∀ g ∈ (parts.map Prod.snd).flatten, L.page_serialno g ≠ k) :
    L.demux k (parts.map fun p => p.1 ++ p.2).flatten = (parts.map Prod.fst).flatten := by
  induction parts with
  | nil => rfl
  | cons p parts ih =>
      simp only [List.map_cons, List.flatten_cons, List.forall_mem_append] at hfst hsnd
      simp only [List.map_cons, List.flatten_cons, Paging.demux_append,
        Paging.demux_eq_self hfst.1, Paging.demux_eq_nil hsnd.1, ih hfst.2 hsnd.2, List.append_nil]

/-- The second one. -/
theorem demux_snd {k : BitVec 32} {parts : List (List G × List G)}
    (hfst : ∀ g ∈ (parts.map Prod.fst).flatten, L.page_serialno g ≠ k)
    (hsnd : ∀ g ∈ (parts.map Prod.snd).flatten, L.page_serialno g = k) :
    L.demux k (parts.map fun p => p.1 ++ p.2).flatten = (parts.map Prod.snd).flatten := by
  induction parts with
  | nil => rfl
  | cons p parts ih =>
      simp only [List.map_cons, List.flatten_cons, List.forall_mem_append] at hfst hsnd
      simp only [List.map_cons, List.flatten_cons, Paging.demux_append,
        Paging.demux_eq_nil hfst.1, Paging.demux_eq_self hsnd.1, ih hfst.2 hsnd.2, List.nil_append]

/-- There are headers, and nothing after the frames. -/
theorem lifetime_trailer (L : Libogg S G) (serials : BitVec 32 × BitVec 32 × BitVec 32)
    (c : Codecs) (h : Idle info) (hs : info.with_skeleton = true) (fs : List OggFrame) :
    ∃ last p, lifetime L serials c info fs = some (last, p) ∧ p.trailer = [] ∧ p.header ≠ [] := by
  obtain ⟨last, f, t, e, vorbis, bones, tables, parts, hlife, -, -⟩ :=
    lifetime_streams L serials c h hs fs
  exact ⟨last, _, hlife, rfl, by simp⟩

/-- A sum over pages that alternate. -/
theorem sum_parts (n : G → ℕ) (parts : List (List G × List G)) :
    ((parts.map fun p => p.1 ++ p.2).flatten.map n).sum =
      ((parts.map Prod.fst).flatten.map n).sum + ((parts.map Prod.snd).flatten.map n).sum := by
  rw [((perm_parts parts).map n).sum_eq, List.map_append, List.sum_append]

end OggMux

open OggMux

variable (L : Libogg S G) (serials : BitVec 32 × BitVec 32 × BitVec 32) (c : Codecs)
  (use_audio : Bool) (sample_rate : BitVec 32) (s : S) (fs : List OggFrame)

/-- **The file is grouped.** Whatever the library and the encoders do, the file begins with the
first page of each stream, that of the skeleton in front, and no other page is the first one of
a stream. The destructor writes nothing after the pages of the last frame. -/
theorem ogg_grouped : ∃ last p heads rest,
    OggMux.lifetime L serials c (start use_audio sample_rate s) fs = some (last, p) ∧
      p.header = heads ++ rest ∧ p.trailer = [] ∧
      heads.map L.page_serialno =
        [serials.2.2, serials.1] ++ (if use_audio then [serials.2.1] else []) ∧
      (∀ g ∈ heads, L.bos g = true) ∧ ∀ g ∈ rest ++ p.frames.flatten, L.bos g = false := by
  obtain ⟨last, f, t, e, vorbis, bones, tables, parts, hlife, hs, -⟩ :=
    lifetime_streams L serials c
      (start_idle use_audio sample_rate s) rfl fs
  have hf : L.bos f = true ∧ L.page_serialno f = serials.2.2 := by
    refine ⟨(hs.skeleton_history.bos_head f rfl).trans ?_, ?_⟩
    · rw [L.begun_init]
      rfl
    · rw [hs.skeleton_history.pages f List.mem_cons_self, L.serialno_init]
  have ht : L.bos t = true ∧ L.page_serialno t = serials.1 := by
    refine ⟨(hs.theora_history.bos_head t rfl).trans ?_, ?_⟩
    · rw [L.begun_init]
      rfl
    · rw [hs.theora_history.pages t List.mem_cons_self, L.serialno_init]
  have hbones : ∀ g ∈ bones ++ [e], L.bos g = false := hs.skeleton_history.bos_tail
  have htables : ∀ g ∈ tables ++ (parts.map Prod.fst).flatten, L.bos g = false :=
    hs.theora_history.bos_tail
  -- the first page of the audio, and its other ones
  obtain ⟨first, others, hvorbis, hfirst, hothers, hsound⟩ : ∃ first others,
      vorbis = first ++ others ∧
      first.map L.page_serialno = (if use_audio then [serials.2.1] else []) ∧
      (∀ g ∈ first, L.bos g = true) ∧
      ∀ g ∈ others ++ (parts.map Prod.snd).flatten, L.bos g = false := by
    cases use_audio with
    | false =>
        obtain ⟨hnil, hnil'⟩ := List.append_eq_nil_iff.mp (hs.no_vorbis rfl)
        exact ⟨[], [], hnil, rfl, by simp, by simp [hnil']⟩
    | true =>
        obtain ⟨v, others, rfl⟩ := List.exists_cons_of_ne_nil (hs.vorbis_ne_nil rfl)
        have hhistory := hs.vorbis_history rfl
        refine ⟨[v], others, rfl, ?_, ?_, hhistory.bos_tail⟩
        · have hpage := hhistory.pages v (by simp)
          rw [L.serialno_init] at hpage
          simp [hpage]
        · have hbos := hhistory.bos_head v (by simp)
          rw [L.begun_init] at hbos
          simpa using hbos
  refine ⟨last, _, [f] ++ [t] ++ first, others ++ bones ++ tables ++ [e], hlife, ?_, rfl, ?_, ?_,
    ?_⟩
  · simp [hvorbis]
  · simp [hf.2, ht.2, hfirst]
  · simp only [List.mem_append, List.mem_singleton]
    rintro g ((rfl | rfl) | hg)
    · exact hf.1
    · exact ht.1
    · exact hothers g hg
  · intro g hg
    rcases List.mem_append.mp hg with hg | hg
    · simp only [List.mem_append, List.mem_singleton] at hg
      rcases hg with ((hg | hg) | hg) | rfl
      · exact hsound g (List.mem_append_left _ hg)
      · exact hbones g (List.mem_append_left _ hg)
      · exact htables g (List.mem_append_left _ hg)
      · exact hbones g (by simp)
    · rcases mem_parts hg with hg | hg
      · exact htables g (List.mem_append_right _ hg)
      · exact hsound g (List.mem_append_right _ hg)

/-- **Each stream is in the file as if there was no other one**, when the serial numbers that
`rand` gives for them are different: the pages with the number of a stream are those that it
gives alone, in the same order, and the skeleton is over before the first frame. -/
theorem ogg_demux (htv : serials.1 ≠ serials.2.1) (hts : serials.1 ≠ serials.2.2)
    (hvs : serials.2.1 ≠ serials.2.2) : ∃ last p,
    OggMux.lifetime L serials c (start use_audio sample_rate s) fs = some (last, p) ∧
      L.demux serials.1 p.all = theora_alone L serials.1 c (fs.map OggFrame.video) ∧
      L.demux serials.2.1 p.all =
        (if use_audio then vorbis_alone L serials.2.1 c (fs.map OggFrame.audio) else []) ∧
      L.demux serials.2.2 p.header = skeleton_alone L serials.2.2 c
        (fisbonesOf serials c (start use_audio sample_rate s : OggMux S G)) ∧
      L.demux serials.2.2 p.frames.flatten = [] := by
  obtain ⟨last, f, t, e, vorbis, bones, tables, parts, hlife, hs, -⟩ :=
    lifetime_streams L serials c
      (start_idle use_audio sample_rate s) rfl fs
  have hskeleton := hs.skeleton_history.pages
  have htheora := hs.theora_history.pages
  have hvorbis : ∀ g ∈ vorbis ++ (parts.map Prod.snd).flatten, L.page_serialno g = serials.2.1 := by
    cases use_audio with
    | false => simp [hs.no_vorbis rfl]
    | true => simpa [L.serialno_init] using (hs.vorbis_history rfl).pages
  have hsound : vorbis ++ (parts.map Prod.snd).flatten =
      if use_audio then vorbis_alone L serials.2.1 c (fs.map OggFrame.audio) else [] := by
    cases use_audio with
    | false => exact hs.no_vorbis rfl
    | true => exact (hs.vorbis_eq rfl).symm
  simp only [L.serialno_init, List.forall_mem_cons, List.forall_mem_append, List.not_mem_nil,
    false_implies, implies_true, and_true] at hskeleton htheora hvorbis
  obtain ⟨hf, hbones, he⟩ := hskeleton
  obtain ⟨ht, htables, hframes⟩ := htheora
  obtain ⟨hvorbis, hframes'⟩ := hvorbis
  have hone {k : BitVec 32} {g : G} (h : L.page_serialno g = k) : L.demux k [g] = [g] :=
    Paging.demux_eq_self (by simpa using h)
  have hnone {k : BitVec 32} {g : G} (h : L.page_serialno g ≠ k) : L.demux k [g] = [] :=
    Paging.demux_eq_nil (by simpa using h)
  refine ⟨last, _, hlife, ?_, ?_, ?_, ?_⟩
  · simp only [Pages.all, Paging.demux_append, Paging.demux_nil, hnone (hf.trans_ne hts.symm),
      hone ht,
      Paging.demux_eq_nil fun g hg => (hvorbis g hg).trans_ne htv.symm,
      Paging.demux_eq_nil fun g hg => (hbones g hg).trans_ne hts.symm,
      Paging.demux_eq_self htables, hnone (he.trans_ne hts.symm),
      demux_fst hframes fun g hg => (hframes' g hg).trans_ne htv.symm, hs.theora_eq]
    simp
  · rw [← hsound]
    simp only [Pages.all, Paging.demux_append, Paging.demux_nil, hnone (hf.trans_ne hvs.symm),
      hnone (ht.trans_ne htv), Paging.demux_eq_self hvorbis,
      Paging.demux_eq_nil fun g hg => (hbones g hg).trans_ne hvs.symm,
      Paging.demux_eq_nil fun g hg => (htables g hg).trans_ne htv, hnone (he.trans_ne hvs.symm),
      demux_snd (fun g hg => (hframes g hg).trans_ne htv) hframes']
    simp
  · simp only [Paging.demux_append, hone hf, hnone (ht.trans_ne hts),
      Paging.demux_eq_nil fun g hg => (hvorbis g hg).trans_ne hvs, Paging.demux_eq_self hbones,
      Paging.demux_eq_nil fun g hg => (htables g hg).trans_ne hts, hone he, hs.skeleton_eq]
    simp
  · refine Paging.demux_eq_nil fun g hg => ?_
    rcases mem_parts hg with hg | hg
    · exact (hframes g hg).trans_ne hts
    · exact (hframes' g hg).trans_ne hvs

/-- Encoders whose headers have no more than their type. -/
def Codecs.short : Codecs where
  theora_header := ⟨0x80 :: (CString.ofString "theora").chars, true, false, 0⟩
  theora_comment := ⟨0x81 :: (CString.ofString "theora").chars, false, false, 0⟩
  theora_tables := ⟨0x82 :: (CString.ofString "theora").chars, false, false, 0⟩
  vorbis_header := ⟨1 :: (CString.ofString "vorbis").chars, true, false, 0⟩
  vorbis_comm := ⟨3 :: (CString.ofString "vorbis").chars, false, false, 0⟩
  vorbis_code := ⟨5 :: (CString.ofString "vorbis").chars, false, false, 0⟩
  granule_shift := 6
  timeStart := .ofString "20080101T120000"

/-- A frame of more than a page, with sound. -/
def OggFrame.long : OggFrame where
  video := [⟨List.replicate 5000 0x3f, false, false, 64⟩]
  audio := [⟨[0], false, false, 1024⟩]

/-- The video of a frame is on two pages, of which the second one waits. -/
theorem ogg_demux_long : ∃ last p,
    OggMux.lifetime Libogg.ogg (1, 2, 3) .short (start true 48000 (Libogg.ogg.stream_init 0))
      [.long] = some (last, p) ∧
      (Libogg.ogg.demux 1 p.all).map OggPage.pageno = [0, 1, 2] ∧
      (Libogg.ogg.demux 2 p.all).map OggPage.pageno = [0, 1] := by
  obtain ⟨last, p, hlife, htheora, hvorbis, -⟩ :=
    ogg_demux Libogg.ogg (1, 2, 3) .short true 48000 (Libogg.ogg.stream_init 0) [.long]
      (by decide) (by decide) (by decide)
  refine ⟨last, p, hlife, ?_, ?_⟩
  · rw [htheora]
    decide +kernel
  · rw [hvorbis]
    decide +kernel

/-- **The streams have no end, and what waits is lost.** The encoders are never told to end, so
that no page of the video or the audio is the last one of its stream; the flush of the
destructor writes nothing; and of the packets that were put in for the frames, those that
`v_pkg` and `a_pkg` count are on no page. -/
theorem ogg_truncated
    (hheaders : ∀ p ∈ [c.theora_header, c.theora_comment, c.theora_tables, c.vorbis_header,
      c.vorbis_comm, c.vorbis_code], p.e_o_s = false)
    (hframes : ∀ f ∈ fs, ∀ p ∈ f.video ++ f.audio, p.e_o_s = false) : ∃ last p,
    OggMux.lifetime L serials c (start use_audio sample_rate s) fs = some (last, p) ∧
      (∀ g ∈ p.header, L.eos g = true → L.page_serialno g = serials.2.2) ∧
      (∀ g ∈ p.frames.flatten, L.eos g = false) ∧ p.trailer = [] ∧
      last.v_pkg = L.waiting last.to_state ∧
      last.a_pkg = (if use_audio then L.waiting last.vo_state else 0 : ℕ) ∧
      ((fs.map fun f => f.video.length + if use_audio then f.audio.length else 0).sum : ℕ) =
        (p.frames.flatten.map L.packets).sum + last.v_pkg + last.a_pkg ∧
      last.video_bytesout + last.audio_bytesout =
        (p.frames.flatten.map fun g => (bytes L g).length).sum := by
  obtain ⟨last, f, t, e, vorbis, bones, tables, parts, hlife, hs, hcounted⟩ :=
    lifetime_streams L serials c
      (start_idle use_audio sample_rate s) rfl fs
  simp only [List.forall_mem_cons, List.not_mem_nil, false_implies, implies_true, and_true]
    at hheaders
  obtain ⟨hh1, hh2, hh3, hh4, hh5, hh6⟩ := hheaders
  have hlast (p : OggPacket) (hp : p.e_o_s = false) : L.last p = false := (L.last_eq p).trans hp
  have hvideo_end := hs.theora_history.eos_false (L.ended_init _) (by
    simp only [List.forall_mem_append, List.forall_mem_cons, List.not_mem_nil, false_implies,
      implies_true, and_true]
    refine ⟨⟨hlast _ hh1, hlast _ hh2, hlast _ hh3⟩, fun p hp => hlast p ?_⟩
    obtain ⟨_, hmem, hp⟩ := List.mem_flatten.mp hp
    obtain ⟨f, hf, rfl⟩ := List.mem_map.mp hmem
    exact hframes f hf p (List.mem_append_left _ hp))
  have haudio_end : ∀ g ∈ vorbis ++ (parts.map Prod.snd).flatten, L.eos g = false := by
    cases use_audio with
    | false => simp [hs.no_vorbis rfl]
    | true =>
        refine (hs.vorbis_history rfl).eos_false (L.ended_init _) ?_
        simp only [List.forall_mem_append, List.forall_mem_cons, List.not_mem_nil, false_implies,
          implies_true, and_true]
        refine ⟨⟨hlast _ hh4, hlast _ hh5, hlast _ hh6⟩, fun p hp => hlast p ?_⟩
        obtain ⟨_, hmem, hp⟩ := List.mem_flatten.mp hp
        obtain ⟨f, hf, rfl⟩ := List.mem_map.mp hmem
        exact hframes f hf p (List.mem_append_right _ hp)
  -- the packets of a stream are on its pages or wait
  have hlength (packets : OggFrame → List OggPacket) :
      (fs.map packets).flatten.length = (fs.map fun f => (packets f).length).sum := by
    rw [List.length_flatten, List.map_map]
    rfl
  have hvideo_packets : (fs.map fun f => f.video.length).sum =
      ((parts.map Prod.fst).flatten.map L.packets).sum + L.waiting last.to_state := by
    have hwait := hs.theora_history.waiting
    have hthree := hs.theora_packets
    simp only [L.waiting_init, List.length_append, List.length_cons, List.length_nil, hlength,
      List.map_cons, List.map_append, List.sum_cons, List.sum_append] at hwait hthree
    omega
  have haudio_packets : (fs.map fun f =>
        ((start use_audio sample_rate s : OggMux S G).audioOf f).length).sum =
      ((parts.map Prod.snd).flatten.map L.packets).sum +
        if use_audio then L.waiting last.vo_state else 0 := by
    cases use_audio with
    | false =>
        obtain ⟨-, hnil⟩ := List.append_eq_nil_iff.mp (hs.no_vorbis rfl)
        simp [audioOf, start, hnil]
    | true =>
        have hwait := (hs.vorbis_history rfl).waiting
        have hthree := hs.vorbis_packets rfl
        simp only [L.waiting_init, List.length_append, List.length_cons, List.length_nil, hlength,
          List.map_append, List.sum_append] at hwait hthree
        simp only [audioOf, start, Bool.not_true, Bool.false_eq_true, if_false, if_true]
        omega
  have hsum : (fs.map fun f => f.video.length + if use_audio then f.audio.length else 0).sum =
      (fs.map fun f => f.video.length).sum + (fs.map fun f =>
        ((start use_audio sample_rate s : OggMux S G).audioOf f).length).sum := by
    rw [← List.sum_map_add]
    congr 2
    funext f
    cases use_audio <;> rfl
  have hvp : last.v_pkg = 0 + ((fs.map fun f => f.video.length).sum : ℕ) -
      (((parts.map Prod.fst).flatten.map L.packets).sum : ℕ) := hcounted.v_pkg
  have hap : last.a_pkg = 0 + ((fs.map fun f =>
      ((start use_audio sample_rate s : OggMux S G).audioOf f).length).sum : ℕ) -
      (((parts.map Prod.snd).flatten.map L.packets).sum : ℕ) := hcounted.a_pkg
  have hvb : last.video_bytesout = 0 +
      ((parts.map Prod.fst).flatten.map fun g => (bytes L g).length).sum := hcounted.video_bytesout
  have hab : last.audio_bytesout = 0 +
      ((parts.map Prod.snd).flatten.map fun g => (bytes L g).length).sum := hcounted.audio_bytesout
  refine ⟨last, _, hlife, fun g hg heos => ?_, fun g hg => ?_, rfl, ?_, ?_, ?_, ?_⟩
  · simp only [List.mem_append, List.mem_singleton] at hg
    have hskeleton := hs.skeleton_history.pages
    rw [L.serialno_init] at hskeleton
    rcases hg with ((((rfl | rfl) | hg) | hg) | hg) | rfl
    · exact hskeleton _ List.mem_cons_self
    · rw [hvideo_end _ List.mem_cons_self] at heos
      exact absurd heos Bool.false_ne_true
    · rw [haudio_end g (List.mem_append_left _ hg)] at heos
      exact absurd heos Bool.false_ne_true
    · exact hskeleton g (by simp [hg])
    · rw [hvideo_end g (by simp [hg])] at heos
      exact absurd heos Bool.false_ne_true
    · exact hskeleton _ (by simp)
  · rcases mem_parts hg with hg | hg
    · exact hvideo_end g (List.mem_cons_of_mem _ (List.mem_append_right _ hg))
    · exact haudio_end g (List.mem_append_right _ hg)
  · omega
  · rw [hap, haudio_packets]
    omega
  · rw [hsum, sum_parts]
    omega
  · rw [sum_parts]
    omega

/-- The end of that frame, and all of its sound. -/
theorem ogg_truncated_long : ∃ last p,
    OggMux.lifetime Libogg.ogg (1, 2, 3) .short (start true 48000 (Libogg.ogg.stream_init 0))
      [.long] = some (last, p) ∧ p.trailer = [] ∧
      (2 : ℕ) = (p.frames.flatten.map Libogg.ogg.packets).sum + last.v_pkg + last.a_pkg := by
  have hlong : ∀ p ∈ OggFrame.long.video ++ OggFrame.long.audio, p.e_o_s = false := by
    intro p hp
    rcases List.mem_cons.mp hp with rfl | hp
    · rfl
    · rw [List.mem_singleton.mp hp]
  obtain ⟨last, p, hlife, -, -, htrailer, -, -, hcount, -⟩ :=
    ogg_truncated Libogg.ogg (1, 2, 3) .short true 48000 (Libogg.ogg.stream_init 0) [.long]
      (by simp [Codecs.short]) (by simpa using hlong)
  exact ⟨last, p, hlife, htrailer, hcount⟩

end FreeJ
