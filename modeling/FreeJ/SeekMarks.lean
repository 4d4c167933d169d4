import FreeJ.RelativeSeek

/-!
# What a Seek Does and Says

`VideoLayer::seek` returns nothing negative but for a movie that is not seekable, away from its
beginning: not when `av_seek_frame` fails, and not when the file, once closed, cannot be opened
again. `VideoLayer::feed` reads packets in a loop that goes back to the beginning when there are
none; it gives up only when `seek` fails, and so never does.

The marks are times in seconds, which are turned into integers before they are multiplied by
`AV_TIME_BASE`.

## Main results

* `seek_right_iff`: when a seek says what it did and stays between the marks.
* `feed_ends_iff`: the loop of `feed` ends only with a packet.
-/

namespace FreeJ

namespace VideoLayer

/-- The seek has moved the position, or opened the file again. -/
def Seeked.Done (av_seek_frame : ℤ → ℤ) (opens : Bool) (s : Seeked) : Prop :=
  (∃ timestamp, s.asked = some timestamp ∧ 0 ≤ av_seek_frame timestamp) ∨
    (s.reopened = true ∧ opens = true)

/-- A seek returns something negative exactly when it has done nothing, and asks for a position
between the marks. `opens` is what `open` returns. -/
structure SeekRight (av_seek_frame : ℤ → ℤ) (opens : Bool) (layer : VideoLayer)
    (timestamp : ℤ) : Prop where
  failure : (seek av_seek_frame layer timestamp).ret < 0 ↔
    ¬ (seek av_seek_frame layer timestamp).Done av_seek_frame opens
  marks : layer.mark_in ≠ NO_MARK → layer.mark_out ≠ NO_MARK → layer.mark_in ≤ layer.mark_out →
    ∀ asked, (seek av_seek_frame layer timestamp).asked = some asked →
      layer.mark_in * AV_TIME_BASE ≤ asked ∧ (asked : ℚ) ≤ layer.mark_out * AV_TIME_BASE

/-- The movie can be seeked. -/
def CanSeek (layer : VideoLayer) : Prop := layer.seekable ∧ layer.codec_name ≠ "rawvideo"

variable {layer : VideoLayer} {timestamp : ℤ} {t u : ℚ}

/-! ### The marks -/

theorem toInt64_of_nonpos (ht : t ≤ 0) : toInt64 t = ⌈t⌉ := by
  have hneg : 0 ≤ -t := neg_nonneg.mpr ht
  have hpos := toInt64_of_nonneg hneg
  rw [Int.floor_neg, toInt64, Rat.num_neg_eq_neg_num, Rat.den_neg_eq_den, Int.neg_tdiv] at hpos
  exact neg_injective hpos

theorem toInt64_mono (h : t ≤ u) : toInt64 t ≤ toInt64 u := by
  rcases le_total 0 t with ht | ht
  · rw [toInt64_of_nonneg ht, toInt64_of_nonneg (ht.trans h)]
    exact Int.floor_mono h
  rcases le_total 0 u with hu | hu
  · rw [toInt64_of_nonpos ht, toInt64_of_nonneg hu]
    exact (Int.ceil_le.mpr (by exact_mod_cast ht)).trans (Int.floor_nonneg.mpr hu)
  · rw [toInt64_of_nonpos ht, toInt64_of_nonpos hu]
    exact Int.ceil_mono h

/-- With both marks, a position is moved between them. -/
theorem betweenMarks_eq (hin : layer.mark_in ≠ NO_MARK) (hout : layer.mark_out ≠ NO_MARK)
    (hle : layer.mark_in ≤ layer.mark_out) : layer.betweenMarks timestamp =
      max (toInt64 layer.mark_in * AV_TIME_BASE)
        (min timestamp (toInt64 layer.mark_out * AV_TIME_BASE)) := by
  have hmono := toInt64_mono hle
  rw [betweenMarks, if_pos ⟨hin, hout⟩]
  unfold AV_TIME_BASE
  split_ifs <;> omega

theorem base_pos : (0 : ℚ) < AV_TIME_BASE := by
  rw [AV_TIME_BASE]
  norm_num

/-- The position is between the marks exactly when they are whole seconds, or it was between
them before; or they are cut to the side of the other one. -/
theorem betweenMarks_between_iff (hin : layer.mark_in ≠ NO_MARK)
    (hout : layer.mark_out ≠ NO_MARK) (hle : layer.mark_in ≤ layer.mark_out) :
    (layer.mark_in * AV_TIME_BASE ≤ layer.betweenMarks timestamp ∧
        (layer.betweenMarks timestamp : ℚ) ≤ layer.mark_out * AV_TIME_BASE) ↔
      (layer.mark_in ≤ toInt64 layer.mark_in ∨
        (layer.mark_in * AV_TIME_BASE ≤ timestamp ∧ layer.mark_in ≤ toInt64 layer.mark_out)) ∧
      ((toInt64 layer.mark_out : ℚ) ≤ layer.mark_out ∨
        ((timestamp : ℚ) ≤ layer.mark_out * AV_TIME_BASE ∧
          (toInt64 layer.mark_in : ℚ) ≤ layer.mark_out)) := by
  have hbase := base_pos
  have hmono : (toInt64 layer.mark_in : ℚ) ≤ toInt64 layer.mark_out := by
    exact_mod_cast toInt64_mono hle
  rw [betweenMarks_eq hin hout hle, Int.cast_max, Int.cast_min, le_max_iff, le_min_iff,
    max_le_iff, min_le_iff, Int.cast_mul, Int.cast_mul, mul_le_mul_iff_left₀ hbase,
    mul_le_mul_iff_left₀ hbase, mul_le_mul_iff_left₀ hbase, mul_le_mul_iff_left₀ hbase]
  refine and_congr_right fun _ => ⟨?_, ?_⟩
  · rintro ⟨hlo, htime | hhi⟩
    · exact .inr ⟨htime, hlo⟩
    · exact .inl hhi
  · rintro (hhi | ⟨htime, hlo⟩)
    · exact ⟨hmono.trans hhi, .inr hhi⟩
    · exact ⟨hlo, .inl htime⟩

/-! ### What is done -/

/-- A movie that cannot be seeked is opened again at its beginning, or not touched. -/
theorem seek_of_not_canSeek (av_seek_frame : ℤ → ℤ) (timestamp : ℤ) (h : ¬ layer.CanSeek) :
    (seek av_seek_frame layer timestamp).asked = none ∧
      ((seek av_seek_frame layer timestamp).reopened = true ↔ timestamp = layer.start_time) := by
  rw [seek, if_pos (by simpa [CanSeek, imp_iff_not_or] using h)]
  split <;> simp_all

/-- A movie that can be seeked is opened again only where the library fails. -/
theorem seek_of_canSeek (av_seek_frame : ℤ → ℤ) (timestamp : ℤ) (h : layer.CanSeek) :
    (seek av_seek_frame layer timestamp).asked = some (layer.betweenMarks timestamp) ∧
      ((seek av_seek_frame layer timestamp).reopened = true ↔
        av_seek_frame (layer.betweenMarks timestamp) < 0 ∧ timestamp = layer.start_time) := by
  rw [seek, if_neg (by simpa [CanSeek] using h)]
  dsimp only
  split <;> simp_all

/-- **A seek is right** exactly when a file that it opens again is opened, the library does not
fail away from the beginning, and the marks do not lose a part of a second that matters. `result`
is what `av_seek_frame` returns. -/
theorem seek_right_iff (result : ℤ) (opens : Bool) (layer : VideoLayer) (timestamp : ℤ) :
    SeekRight (fun _ => result) opens layer timestamp ↔
      (¬ layer.CanSeek → timestamp = layer.start_time → opens = true) ∧
      (layer.CanSeek → result < 0 → timestamp = layer.start_time ∧ opens = true) ∧
      (layer.CanSeek → layer.mark_in ≠ NO_MARK → layer.mark_out ≠ NO_MARK →
        layer.mark_in ≤ layer.mark_out →
          (layer.mark_in ≤ toInt64 layer.mark_in ∨
            (layer.mark_in * AV_TIME_BASE ≤ timestamp ∧
              layer.mark_in ≤ toInt64 layer.mark_out)) ∧
          ((toInt64 layer.mark_out : ℚ) ≤ layer.mark_out ∨
            ((timestamp : ℚ) ≤ layer.mark_out * AV_TIME_BASE ∧
              (toInt64 layer.mark_in : ℚ) ≤ layer.mark_out))) := by
  have hret : (seek (fun _ => result) layer timestamp).ret < 0 ↔
      ¬ layer.CanSeek ∧ timestamp ≠ layer.start_time := seek_ret_neg_iff
  by_cases hcan : layer.CanSeek
  · obtain ⟨hasked, hreopened⟩ := seek_of_canSeek (fun _ => result) timestamp hcan
    have hdone : (seek (fun _ => result) layer timestamp).Done (fun _ => result) opens ↔
        0 ≤ result ∨ (result < 0 ∧ timestamp = layer.start_time) ∧ opens = true := by
      simp only [Seeked.Done, hasked, hreopened, Option.some.injEq, exists_eq_left']
    constructor
    · rintro ⟨hfailure, hmarks⟩
      rw [hret, hdone] at hfailure
      refine ⟨fun h => absurd hcan h, fun _ hneg => ?_, fun _ hin hout hle => ?_⟩
      · by_contra hnot
        exact (hfailure.mpr fun h => h.elim (by omega) fun h => hnot ⟨h.1.2, h.2⟩).1 hcan
      · exact (betweenMarks_between_iff hin hout hle).mp (hmarks hin hout hle _ hasked)
    · rintro ⟨-, hfails, hmarks⟩
      refine ⟨?_, fun hin hout hle asked h => ?_⟩
      · rw [hret, hdone]
        refine iff_of_false (fun h => h.1 hcan) (not_not_intro ?_)
        rcases Int.lt_or_le result 0 with hneg | hpos
        · obtain ⟨hstart, hopens⟩ := hfails hcan hneg
          exact .inr ⟨⟨hneg, hstart⟩, hopens⟩
        · exact .inl hpos
      · rw [hasked] at h
        obtain rfl := Option.some.inj h
        exact (betweenMarks_between_iff hin hout hle).mpr (hmarks hcan hin hout hle)
  · obtain ⟨hasked, hreopened⟩ := seek_of_not_canSeek (fun _ => result) timestamp hcan
    have hdone : (seek (fun _ => result) layer timestamp).Done (fun _ => result) opens ↔
        timestamp = layer.start_time ∧ opens = true := by
      simp only [Seeked.Done, hasked, hreopened, reduceCtorEq, false_and, exists_false, false_or]
    constructor
    · rintro ⟨hfailure, -⟩
      rw [hret, hdone] at hfailure
      refine ⟨fun _ hstart => ?_, fun h => absurd h hcan, fun h => absurd h hcan⟩
      by_contra hnot
      exact (hfailure.mpr fun h => hnot h.2).2 hstart
    · rintro ⟨hopens, -, -⟩
      refine ⟨?_, fun _ _ _ asked h => ?_⟩
      · rw [hret, hdone]
        exact ⟨fun h hd => h.2 hd.1, fun h => ⟨hcan, fun hstart => h ⟨hstart, hopens hcan hstart⟩⟩⟩
      · rw [hasked] at h
        exact nomatch h

/-- A movie that can be seeked, with marks at a second and a half and at ten seconds. -/
def marked : VideoLayer where
  video_current_pts := 0
  video_current_pts_time := 0
  duration := 20 * AV_TIME_BASE
  start_time := 0
  codec_name := "mpeg4"
  seekable := true
  mark_in := 3 / 2
  mark_out := 10

/-- The library fails, and nothing is said of it. -/
theorem seek_fails_silently : ¬ ∀ (result : ℤ) (opens : Bool) (layer : VideoLayer)
    (timestamp : ℤ), SeekRight (fun _ => result) opens layer timestamp := by
  intro h
  have hfailure := (h (-1) true marked AV_TIME_BASE).failure
  have hdone : ¬ (seek (fun _ => -1) marked AV_TIME_BASE).Done (fun _ => -1) true := by
    rintro (⟨asked, -, hpos⟩ | ⟨hreopened, -⟩)
    · exact absurd hpos (by norm_num)
    · have hcan : marked.CanSeek := ⟨rfl, by decide⟩
      have hstart := ((seek_of_canSeek _ _ hcan).2.mp hreopened).2
      exact absurd hstart (by decide)
  have hret := seek_ret_neg_iff.mp (hfailure.mpr hdone)
  exact hret.1 ⟨rfl, by decide⟩

/-! ### The end of the stream -/

/-- What `av_read_frame` gives: an error or the end, a packet of the streams that are played,
or one of another stream. -/
inductive ReadFrame
  | failed
  | played
  | other

/-- How `feed` leaves its reading. -/
inductive FeedRead
  | packet
  /-- "VideoLayer::could not loop file" -/
  | could_not_loop

/-- The loop in which `feed` reads a packet, for `fuel` rounds at most. `reopen` is what `close`
and `open` make of the layer. -/
def readPacket (frames : ℕ → ReadFrame) (av_seek_frame : ℕ → ℤ → ℤ)
    (reopen : ℕ → VideoLayer → VideoLayer) : ℕ → ℕ → VideoLayer → Option FeedRead
  | 0, _, _ => none
  | fuel + 1, k, layer =>
    match frames k with
    | .failed =>
      let seeked := seek (av_seek_frame k) layer layer.start_time
      let layer := { layer with seekable := seeked.seekable }
      if seeked.ret < 0 then some .could_not_loop
      else readPacket frames av_seek_frame reopen fuel (k + 1)
        (if seeked.reopened then reopen k layer else layer)
    | .played => some .packet
    | .other => readPacket frames av_seek_frame reopen fuel (k + 1) layer

/-- Going back to the beginning never fails. -/
theorem seek_start_ret (av_seek_frame : ℤ → ℤ) (layer : VideoLayer) :
    ¬ (seek av_seek_frame layer layer.start_time).ret < 0 :=
  fun h => (seek_ret_neg_iff.mp h).2 rfl

/-- **The loop of `feed` ends** only with a packet, and goes on for ever if there is none. -/
theorem feed_ends_iff (frames : ℕ → ReadFrame) (av_seek_frame : ℕ → ℤ → ℤ)
    (reopen : ℕ → VideoLayer → VideoLayer) (k : ℕ) (layer : VideoLayer) (r : FeedRead) :
    (∃ fuel, readPacket frames av_seek_frame reopen fuel k layer = some r) ↔
      r = .packet ∧ ∃ j, k ≤ j ∧ frames j = .played := by
  constructor
  · rintro ⟨fuel, h⟩
    induction fuel generalizing k layer with
    | zero => exact nomatch h
    | succ fuel ih =>
        rw [readPacket] at h
        split at h
        · dsimp only at h
          rw [if_neg (seek_start_ret _ _)] at h
          obtain ⟨hr, j, hj, hplayed⟩ := ih _ _ h
          exact ⟨hr, j, by omega, hplayed⟩
        · rename_i hplayed
          exact ⟨(Option.some.inj h).symm, k, Nat.le_refl k, hplayed⟩
        · obtain ⟨hr, j, hj, hplayed⟩ := ih _ _ h
          exact ⟨hr, j, by omega, hplayed⟩
  · rintro ⟨rfl, j, hj, hplayed⟩
    obtain ⟨n, rfl⟩ := Nat.exists_eq_add_of_le hj
    refine ⟨n + 1, ?_⟩
    induction n generalizing k layer with
    | zero =>
        rw [Nat.add_zero] at hplayed
        rw [readPacket, hplayed]
    | succ n ih =>
        have hnext : frames (k + 1 + n) = .played := by rwa [Nat.add_assoc, Nat.add_comm 1]
        rw [readPacket]
        split
        · dsimp only
          rw [if_neg (seek_start_ret _ _)]
          exact ih _ _ (by omega) hnext
        · rfl
        · exact ih _ _ (by omega) hnext

end VideoLayer

end FreeJ
