import Mathlib.Algebra.Order.Archimedean.Basic
import Mathlib.Data.Rat.Floor
import Mathlib.Tactic.Linarith
import Mathlib.Tactic.Ring
import FreeJ.Loops

/-!
# Seeking in a Movie

`VideoLayer::relative_seek` moves by some seconds from the clock of the layer. Before the
beginning it goes to the beginning; behind the end it goes round, taking off the duration of
the movie while the time is greater than it. The duration is in units of `AV_TIME_BASE` and is
divided by it in integers. The time is then turned into an integer, before it is multiplied by
`AV_TIME_BASE`.

Times are rationals here, in place of doubles. `av_seek_frame` of the library is a parameter.

## Main results

* `wrap_ends_iff`: the loop ends unless the duration is shorter than a second.
* `relative_seek_result`: when a call says that it failed.
* `relative_seek_iff`: when a call seeks a position inside the movie that is where it should
  be.
-/

namespace FreeJ

open Loops

/-- The fields of a video layer that are read in seeking. -/
structure VideoLayer where
  video_current_pts : ℚ
  video_current_pts_time : ℚ
  /-- `avformat_context -> duration` -/
  duration : ℤ
  /-- `avformat_context -> start_time` -/
  start_time : ℤ
  /-- `video_codec -> name` -/
  codec_name : String
  seekable : Bool
  mark_in : ℚ
  mark_out : ℚ

namespace VideoLayer

/-- A duration of one second. -/
def AV_TIME_BASE : ℤ := 1000000

def NO_MARK : ℚ := -1

/-- `(int64_t) current_time` -/
def toInt64 (current_time : ℚ) : ℤ := current_time.num.tdiv current_time.den

def get_master_clock (layer : VideoLayer) (av_gettime : ℤ) : ℚ :=
  layer.video_current_pts + (av_gettime - layer.video_current_pts_time) / 1000000

/-- What `seek` returns and warns of, the position it asks `av_seek_frame` for, whether it
closes the file and opens it again, and `seekable` before this. -/
structure Seeked where
  ret : ℤ
  warning : Option String
  asked : Option ℤ
  reopened : Bool
  seekable : Bool

/-- The position in the marks, when there are both. -/
def betweenMarks (layer : VideoLayer) (timestamp : ℤ) : ℤ :=
  let mark_in_av_time_base := toInt64 layer.mark_in * AV_TIME_BASE
  let mark_out_av_time_base := toInt64 layer.mark_out * AV_TIME_BASE
  if layer.mark_in ≠ NO_MARK ∧ layer.mark_out ≠ NO_MARK then
    -- the source increments the mark it has just read, and does not read it again
    if timestamp < mark_in_av_time_base then mark_in_av_time_base
    else if timestamp > mark_out_av_time_base then mark_out_av_time_base
    else timestamp
  else timestamp

def seek (av_seek_frame : ℤ → ℤ) (layer : VideoLayer) (timestamp : ℤ) : Seeked :=
  let seeking_at_beginning_of_stream := timestamp == layer.start_time
  if !(layer.seekable && layer.codec_name != "rawvideo") then
    if seeking_at_beginning_of_stream then ⟨0, none, none, true, false⟩
    else ⟨-1, some s!"{layer.codec_name} video is not seekable!", none, false, false⟩
  else
    let timestamp := layer.betweenMarks timestamp
    if av_seek_frame timestamp < 0 then
      ⟨0, none, some timestamp, seeking_at_beginning_of_stream, false⟩
    else ⟨0, none, some timestamp, false, true⟩

/-- What `relative_seek` tells the user. -/
inductive SeekReport
  /-- `"seek to %.1f\%"` -/
  | seek_to (current_time : ℚ)
  /-- `"Can't seek file: %s"`, with the name of the file -/
  | cant_seek

/-- What `relative_seek` does: the position it hands to `seek`, what comes of it, what it
reports and returns. -/
structure Sought where
  timestamp : ℤ
  seeked : Seeked
  report : SeekReport
  result : Bool

/-- `avformat_context -> duration / AV_TIME_BASE` -/
def seconds (duration : ℤ) : ℤ := duration.tdiv AV_TIME_BASE

/-- The loop that goes round, for less than `fuel` rounds. -/
def wrap (duration : ℤ) (fuel : ℕ) (current_time : ℚ) : Option ℚ :=
  whileDo (fun _ t => t - seconds duration) (fun t => t > seconds duration) fuel 0 current_time

def relative_seek (av_seek_frame : ℤ → ℤ) (layer : VideoLayer) (av_gettime : ℤ)
    (increment : ℚ) (fuel : ℕ) : Option Sought :=
  let current_time := layer.get_master_clock av_gettime + increment
  (if current_time < 0 then some 0 else wrap layer.duration fuel current_time).map
    fun current_time =>
      let timestamp := toInt64 current_time * AV_TIME_BASE
      let seeked := seek av_seek_frame layer timestamp
      if seeked.ret < 0 then ⟨timestamp, seeked, .cant_seek, false⟩
      else ⟨timestamp, seeked, .seek_to current_time, true⟩

/-- The call ends, and the position is in the movie: at the time asked for, less a whole number
of durations, or at the beginning if this is before it. -/
def SeeksInside (av_seek_frame : ℤ → ℤ) (layer : VideoLayer) (av_gettime : ℤ)
    (increment : ℚ) : Prop :=
  ∃ fuel r, relative_seek av_seek_frame layer av_gettime increment fuel = some r ∧
    0 ≤ r.timestamp ∧ r.timestamp ≤ layer.duration ∧
    if layer.get_master_clock av_gettime + increment < 0 then r.timestamp = 0
    else ∃ k : ℤ, (r.timestamp : ℚ) / AV_TIME_BASE =
      layer.get_master_clock av_gettime + increment - k * seconds layer.duration

/-! ### Going round -/

variable {duration : ℤ} {t t' : ℚ}

theorem rounds_eq (k : ℕ) :
    rounds (fun _ (t : ℚ) => t - seconds duration) t k = t - k * seconds duration := by
  induction k with
  | zero => simp [rounds]
  | succ k ih =>
      rw [rounds, ih]
      push_cast
      ring

/-- The loop ends in the first time that is not behind the end. -/
theorem wrap_iff : (∃ fuel, wrap duration fuel t = some t') ↔
    ∃ k : ℕ, t' = t - k * seconds duration ∧ t' ≤ seconds duration ∧
      ∀ j < k, seconds duration < t - j * seconds duration := by
  refine whileDo_ends_iff.trans (exists_congr fun k => ?_)
  simp only [rounds_eq, gt_iff_lt, not_lt]

/-- **The loop ends** for a movie of at least a second, and otherwise only where there is
nothing to take off. -/
theorem wrap_ends_iff : (∃ fuel t', wrap duration fuel t = some t') ↔
    0 < seconds duration ∨ t ≤ seconds duration := by
  rw [exists_comm]
  simp only [wrap_iff]
  constructor
  · rintro ⟨t', k, rfl, hle, hgo⟩
    by_contra hnot
    push Not at hnot
    have hq : (seconds duration : ℚ) ≤ 0 := by exact_mod_cast hnot.1
    have hk : (k : ℚ) * seconds duration ≤ 0 :=
      mul_nonpos_of_nonneg_of_nonpos (Nat.cast_nonneg k) hq
    linarith [hnot.2]
  · intro h
    -- the first number of rounds after which the time is not behind the end
    have hex : ∃ k : ℕ, t - k * seconds duration ≤ seconds duration := by
      rcases h with hq | hle
      · have hq : (1 : ℚ) ≤ seconds duration := by exact_mod_cast hq
        obtain ⟨k, hk⟩ := exists_nat_gt t
        have hmul : (k : ℚ) ≤ k * seconds duration := le_mul_of_one_le_right (Nat.cast_nonneg k) hq
        exact ⟨k, by linarith⟩
      · exact ⟨0, by simpa using hle⟩
    classical
    exact ⟨_, Nat.find hex, rfl, Nat.find_spec hex, fun j hj => not_le.mp (Nat.find_min hex hj)⟩

/-- Where the loop ends, for a movie of at least a second. -/
theorem wrap_bounds {fuel : ℕ} (ht : 0 ≤ t) (h : wrap duration fuel t = some t') :
    0 ≤ t' ∧ t' ≤ seconds duration := by
  obtain ⟨k, rfl, hle, hgo⟩ := wrap_iff.mp ⟨fuel, h⟩
  refine ⟨?_, hle⟩
  cases k with
  | zero => simpa using ht
  | succ k =>
      have hlast := hgo k (Nat.lt_succ_self k)
      push_cast
      linarith

/-! ### The position -/

theorem toInt64_of_nonneg (ht : 0 ≤ t) : toInt64 t = ⌊t⌋ := by
  rw [toInt64, Rat.floor_def', Int.tdiv_eq_ediv_of_nonneg (Rat.num_nonneg.mpr ht)]

/-- The position for a time inside the movie. -/
theorem timestamp_bounds (ht : 0 ≤ t) (hle : t ≤ seconds duration) (hpos : 0 ≤ duration) :
    0 ≤ toInt64 t * AV_TIME_BASE ∧ toInt64 t * AV_TIME_BASE ≤ duration := by
  have hfloor : 0 ≤ ⌊t⌋ := Int.floor_nonneg.mpr ht
  have hseconds : ⌊t⌋ ≤ seconds duration := by exact_mod_cast (Int.floor_le t).trans hle
  have hwhole : seconds duration * AV_TIME_BASE ≤ duration := by
    rw [seconds, Int.tdiv_eq_ediv_of_nonneg hpos]
    exact Int.ediv_mul_le duration (by decide)
  rw [toInt64_of_nonneg ht]
  unfold AV_TIME_BASE at *
  omega

/-- The position in seconds. -/
theorem timestamp_div (ht : 0 ≤ t) :
    ((toInt64 t * AV_TIME_BASE : ℤ) : ℚ) / AV_TIME_BASE = ⌊t⌋ := by
  have hbase : (AV_TIME_BASE : ℚ) ≠ 0 := by
    rw [AV_TIME_BASE]
    norm_num
  rw [toInt64_of_nonneg ht, Int.cast_mul, mul_div_assoc, div_self hbase, mul_one]

/-- The position for a time inside the movie, in seconds. -/
theorem timestamp_wrapped {m : ℕ} (ht : 0 ≤ t - m * seconds duration) :
    (∃ k : ℤ, ((toInt64 (t - m * seconds duration) * AV_TIME_BASE : ℤ) : ℚ) / AV_TIME_BASE =
      t - k * seconds duration) ↔ ∃ n : ℤ, t = n := by
  rw [timestamp_div ht]
  constructor
  · rintro ⟨k, hk⟩
    refine ⟨⌊t - m * seconds duration⌋ + k * seconds duration, ?_⟩
    push_cast
    linarith
  · rintro ⟨n, rfl⟩
    refine ⟨m, ?_⟩
    have hwhole : (n : ℚ) - m * seconds duration = ((n - m * seconds duration : ℤ) : ℚ) := by
      push_cast
      rfl
    rw [hwhole, Int.floor_intCast]
    push_cast
    rfl

/-- The movie is at least a second long. -/
theorem seconds_pos_iff : 0 < seconds duration ↔ AV_TIME_BASE ≤ duration := by
  unfold seconds AV_TIME_BASE
  grind

variable {av_seek_frame : ℤ → ℤ} {layer : VideoLayer} {av_gettime : ℤ} {increment : ℚ}

/-- The call, once the loop has ended. -/
theorem relative_seek_eq_some {fuel : ℕ} {r : Sought}
    (h : relative_seek av_seek_frame layer av_gettime increment fuel = some r) :
    ∃ t', (if layer.get_master_clock av_gettime + increment < 0 then some 0
        else wrap layer.duration fuel (layer.get_master_clock av_gettime + increment)) = some t' ∧
      r.timestamp = toInt64 t' * AV_TIME_BASE := by
  obtain ⟨t', ht', rfl⟩ := Option.map_eq_some_iff.mp h
  refine ⟨t', ht', ?_⟩
  dsimp only
  split <;> rfl

/-- A seek fails only in a movie that cannot be seeked, away from its beginning. -/
theorem seek_ret_neg_iff {timestamp : ℤ} : (seek av_seek_frame layer timestamp).ret < 0 ↔
    ¬ (layer.seekable ∧ layer.codec_name ≠ "rawvideo") ∧ timestamp ≠ layer.start_time := by
  by_cases hseekable : layer.seekable ∧ layer.codec_name ≠ "rawvideo"
  · have hret : (seek av_seek_frame layer timestamp).ret = 0 := by
      rw [seek, if_neg (by simpa using hseekable)]
      dsimp only
      split <;> rfl
    rw [hret]
    exact iff_of_false (by decide) fun h => h.1 hseekable
  · rw [seek, if_pos (by simpa [imp_iff_not_or] using hseekable)]
    by_cases hbegin : timestamp = layer.start_time
    · simp [hbegin]
    · simpa [hbegin] using hseekable

/-- The library is asked for a position in the marks. -/
theorem betweenMarks_bounds {timestamp : ℤ} (hin : layer.mark_in ≠ NO_MARK)
    (hout : layer.mark_out ≠ NO_MARK) (hle : toInt64 layer.mark_in ≤ toInt64 layer.mark_out) :
    toInt64 layer.mark_in * AV_TIME_BASE ≤ layer.betweenMarks timestamp ∧
      layer.betweenMarks timestamp ≤ toInt64 layer.mark_out * AV_TIME_BASE := by
  rw [betweenMarks, if_pos ⟨hin, hout⟩]
  unfold AV_TIME_BASE
  split_ifs <;> constructor <;> omega

/-- A call fails when its seek does. -/
theorem relative_seek_result {fuel : ℕ} {r : Sought}
    (h : relative_seek av_seek_frame layer av_gettime increment fuel = some r) :
    r.result = false ↔
      ¬ (layer.seekable ∧ layer.codec_name ≠ "rawvideo") ∧ r.timestamp ≠ layer.start_time := by
  obtain ⟨t', -, rfl⟩ := Option.map_eq_some_iff.mp h
  dsimp only
  split
  · rename_i hret
    exact iff_of_true rfl (seek_ret_neg_iff.mp hret)
  · rename_i hret
    exact iff_of_false Bool.noConfusion (mt seek_ret_neg_iff.mpr hret)

/-! ### Inside the movie -/

/-- A call for a time before the beginning. -/
theorem seeksInside_of_neg (ht : layer.get_master_clock av_gettime + increment < 0) :
    SeeksInside av_seek_frame layer av_gettime increment ↔ 0 ≤ layer.duration := by
  have htimestamp : ∀ fuel r,
      relative_seek av_seek_frame layer av_gettime increment fuel = some r → r.timestamp = 0 := by
    intro fuel r hr
    obtain ⟨t', ht', htimestamp⟩ := relative_seek_eq_some hr
    rw [if_pos ht] at ht'
    obtain rfl := Option.some.inj ht'
    rw [htimestamp]
    decide
  constructor
  · rintro ⟨fuel, r, hr, hlo, hhi, -⟩
    exact hlo.trans hhi
  · intro hpos
    obtain ⟨r, hr⟩ : ∃ r, relative_seek av_seek_frame layer av_gettime increment 0 = some r := by
      rw [relative_seek, if_pos ht]
      exact ⟨_, rfl⟩
    have hzero := htimestamp 0 r hr
    refine ⟨0, r, hr, hzero.ge, hzero.trans_le hpos, ?_⟩
    rwa [if_pos ht]

/-- A call for a time that is not before the beginning. -/
theorem seeksInside_of_nonneg (ht : 0 ≤ layer.get_master_clock av_gettime + increment) :
    SeeksInside av_seek_frame layer av_gettime increment ↔
      ∃ fuel t', wrap layer.duration fuel (layer.get_master_clock av_gettime + increment) =
        some t' ∧ 0 ≤ toInt64 t' * AV_TIME_BASE ∧ toInt64 t' * AV_TIME_BASE ≤ layer.duration ∧
        ∃ k : ℤ, ((toInt64 t' * AV_TIME_BASE : ℤ) : ℚ) / AV_TIME_BASE =
          layer.get_master_clock av_gettime + increment - k * seconds layer.duration := by
  have hnot : ¬ layer.get_master_clock av_gettime + increment < 0 := not_lt.mpr ht
  constructor
  · rintro ⟨fuel, r, hr, hlo, hhi, hk⟩
    obtain ⟨t', ht', htimestamp⟩ := relative_seek_eq_some hr
    rw [if_neg hnot] at ht' hk
    rw [htimestamp] at hlo hhi hk
    exact ⟨fuel, t', ht', hlo, hhi, hk⟩
  · rintro ⟨fuel, t', ht', hlo, hhi, hk⟩
    obtain ⟨r, hr⟩ :
        ∃ r, relative_seek av_seek_frame layer av_gettime increment fuel = some r := by
      rw [relative_seek, if_neg hnot, ht']
      exact ⟨_, rfl⟩
    obtain ⟨t'', ht'', htimestamp⟩ := relative_seek_eq_some hr
    rw [if_neg hnot, ht'] at ht''
    obtain rfl := Option.some.inj ht''
    refine ⟨fuel, r, hr, ?_⟩
    rw [if_neg hnot, htimestamp]
    exact ⟨hlo, hhi, hk⟩

/-- A whole number of seconds is sought where it should be, once the loop ends. -/
theorem seeksInside_of_whole (ht : 0 ≤ layer.get_master_clock av_gettime + increment)
    (hends : 0 < seconds layer.duration ∨
      layer.get_master_clock av_gettime + increment ≤ seconds layer.duration)
    (hpos : 0 ≤ layer.duration)
    (hwhole : ∃ n : ℤ, layer.get_master_clock av_gettime + increment = n) :
    SeeksInside av_seek_frame layer av_gettime increment := by
  rw [seeksInside_of_nonneg ht]
  obtain ⟨fuel, t', hwrap⟩ := wrap_ends_iff.mpr hends
  obtain ⟨hlo, hhi⟩ := wrap_bounds ht hwrap
  obtain ⟨hbegin, hend⟩ := timestamp_bounds hlo hhi hpos
  obtain ⟨m, rfl, -⟩ := wrap_iff.mp ⟨fuel, hwrap⟩
  exact ⟨fuel, _, hwrap, hbegin, hend, (timestamp_wrapped hlo).mpr hwhole⟩

/-- **A call seeks inside the movie** exactly when the time is before the beginning, and the
duration is known; when the movie is at least a second long and the time is a whole number of
seconds; or when it is shorter and the time is its beginning. -/
theorem relative_seek_iff (av_seek_frame : ℤ → ℤ) (layer : VideoLayer) (av_gettime : ℤ)
    (increment : ℚ) : SeeksInside av_seek_frame layer av_gettime increment ↔
      (layer.get_master_clock av_gettime + increment < 0 ∧ 0 ≤ layer.duration) ∨
      (0 ≤ layer.get_master_clock av_gettime + increment ∧ AV_TIME_BASE ≤ layer.duration ∧
        ∃ n : ℤ, layer.get_master_clock av_gettime + increment = n) ∨
      (layer.get_master_clock av_gettime + increment = 0 ∧ 0 ≤ layer.duration) := by
  rcases lt_or_ge (layer.get_master_clock av_gettime + increment) 0 with ht | ht
  · rw [seeksInside_of_neg ht]
    constructor
    · exact fun hpos => .inl ⟨ht, hpos⟩
    · rintro (⟨-, hpos⟩ | ⟨ht', -⟩ | ⟨-, hpos⟩)
      · exact hpos
      · exact absurd ht (not_lt.mpr ht')
      · exact hpos
  constructor
  · intro h
    obtain ⟨fuel, t', hwrap, hbegin, hend, hk⟩ := (seeksInside_of_nonneg ht).mp h
    obtain ⟨hlo, hhi⟩ := wrap_bounds ht hwrap
    obtain ⟨m, rfl, -⟩ := wrap_iff.mp ⟨fuel, hwrap⟩
    have hwhole := (timestamp_wrapped hlo).mp hk
    rcases lt_or_ge 0 (seconds layer.duration) with hq | hq
    · exact .inr (.inl ⟨ht, seconds_pos_iff.mp hq, hwhole⟩)
    · -- nothing is taken off, so that the time is not greater than nothing
      have hle := (wrap_ends_iff.mp ⟨fuel, _, hwrap⟩).resolve_left (not_lt.mpr hq)
      have hzero : (seconds layer.duration : ℚ) ≤ 0 := by exact_mod_cast hq
      exact .inr (.inr ⟨le_antisymm (hle.trans hzero) ht, hbegin.trans hend⟩)
  · rintro (⟨ht', -⟩ | ⟨-, hsecond, hwhole⟩ | ⟨hzero, hpos⟩)
    · exact absurd ht' (not_lt.mpr ht)
    · have hpos : 0 ≤ layer.duration := le_trans (by decide) hsecond
      exact seeksInside_of_whole ht (.inl (seconds_pos_iff.mpr hsecond)) hpos hwhole
    · have hq : 0 ≤ seconds layer.duration := Int.tdiv_nonneg hpos (by decide)
      refine seeksInside_of_whole ht (.inr ?_) hpos ⟨0, by exact_mod_cast hzero⟩
      rw [hzero]
      exact_mod_cast hq

/-- A clip of half a second. -/
def shortClip : VideoLayer where
  video_current_pts := 0
  video_current_pts_time := 0
  duration := 500000
  start_time := 0
  codec_name := "mpeg4"
  seekable := true
  mark_in := NO_MARK
  mark_out := NO_MARK

/-- In a clip of half a second, a second on from the beginning, the loop takes off nothing for
ever. -/
theorem relative_seek_hangs :
    (∀ fuel, relative_seek (fun _ => 0) shortClip 0 1 fuel = none) ∧
      ¬ SeeksInside (fun _ => 0) shortClip 0 1 := by
  have hclock : shortClip.get_master_clock 0 + 1 = 1 := by
    rw [get_master_clock, shortClip]
    norm_num
  have hseconds : seconds shortClip.duration = 0 := by decide
  have hwrap : ∀ fuel t', wrap shortClip.duration fuel 1 ≠ some t' := by
    intro fuel t' h
    rcases wrap_ends_iff.mp ⟨fuel, t', h⟩ with hq | hle
    · omega
    · rw [hseconds] at hle
      norm_num at hle
  have hnone : ∀ fuel, relative_seek (fun _ => 0) shortClip 0 1 fuel = none := by
    intro fuel
    rw [Option.eq_none_iff_forall_ne_some]
    intro r hr
    obtain ⟨t', ht', -⟩ := relative_seek_eq_some hr
    rw [hclock, if_neg (by norm_num)] at ht'
    exact hwrap fuel t' ht'
  refine ⟨hnone, ?_⟩
  rintro ⟨fuel, r, hr, -⟩
  rw [hnone fuel] at hr
  exact nomatch hr

end VideoLayer

end FreeJ
