import Mathlib.Data.Nat.Bitwise
import Mathlib.Tactic.Ring
import FreeJ.ColourConvert

/-!
# The Planes that Theora Reads

Theora encodes frames whose size is a multiple of sixteen. `OggTheoraEncoder::init` declares a
frame that is large enough for the screen, with the screen as a picture in its middle, and
`encode_video` describes the planes as having the size of this frame. They are allocated, and
filled by `thread_loop`, for the size of the screen.

## Main results

* `offset_even`, `offset_fits`: the picture lies inside the frame, at an even offset.
* `convertedPlanes_spec`: where `thread_loop` puts a pixel of a screen of even size.
* `planes_iff`: what Theora reads is inside the planes, and is the screen, exactly when both
  sizes of the screen are multiples of sixteen.
-/

namespace FreeJ

namespace OggTheoraEncoder

/-- `video_x` and `video_y`: the size `w` scaled up to the next multiple of sixteen. -/
def video (w : ℕ) : ℕ :=
  ((w + 15) >>> 4) <<< 4

/-- `frame_x_offset` and `frame_y_offset`, with `&~ 1` as a difference of bits. -/
def frame_offset (w : ℕ) : ℕ :=
  ((video w - w) / 2).ldiff 1

/-- The sizes of the planes that `init` allocates. -/
structure Allocation where
  enc_y : ℕ
  enc_u : ℕ
  enc_v : ℕ

/-- The allocations of `init`. -/
def allocate (w h : ℕ) : Allocation where
  enc_y := w * h
  enc_u := w * h / 2
  enc_v := w * h / 2

/-- `yuv_buffer`, without the pointers to the planes. -/
structure YuvBuffer where
  y_width : ℕ
  y_height : ℕ
  y_stride : ℕ
  uv_width : ℕ
  uv_height : ℕ
  uv_stride : ℕ

/-- The buffer that `encode_video` hands to Theora. -/
def encode_video (w h : ℕ) : YuvBuffer where
  y_width := video w
  y_height := video h
  y_stride := video w
  uv_width := video w >>> 1
  uv_height := video h >>> 1
  uv_stride := video w >>> 1

/-- Rows of a plane lie inside what was allocated for it. -/
def RowsInside (rows stride size : ℕ) : Prop :=
  ∀ row < rows, ∀ col < stride, row * stride + col < size

section Picture

variable (f : PixelFormat) (surface : ℕ → ℤ) (w x y : ℕ)

/-- The pixel of the screen at `x`, `y`. -/
def pixel : Yuv := f.yuv surface (4 * w * y + 4 * x)

/-- The U of the block of the pixel at `x`, `y`: the mean of four pixels. -/
def blockU : ℤ :=
  (mean (pixel f surface w (2 * (x / 2)) (2 * (y / 2))).u
      (pixel f surface w (2 * (x / 2) + 1) (2 * (y / 2))).u +
    mean (pixel f surface w (2 * (x / 2)) (2 * (y / 2) + 1)).u
      (pixel f surface w (2 * (x / 2) + 1) (2 * (y / 2) + 1)).u) / 2

/-- The V of the block of the pixel at `x`, `y`. -/
def blockV : ℤ :=
  (mean (pixel f surface w (2 * (x / 2)) (2 * (y / 2))).v
      (pixel f surface w (2 * (x / 2) + 1) (2 * (y / 2))).v +
    mean (pixel f surface w (2 * (x / 2)) (2 * (y / 2) + 1)).v
      (pixel f surface w (2 * (x / 2) + 1) (2 * (y / 2) + 1)).v) / 2

end Picture

/-- What Theora may rely on: the rows of the buffer are inside the planes; the picture is inside
the frame at an even offset; and where the buffer has a pixel of the picture, `thread_loop` has
put the pixel of the screen. -/
structure PlanesOk (w h : ℕ) : Prop where
  inside_y : RowsInside (encode_video w h).y_height (encode_video w h).y_stride
    (allocate w h).enc_y
  inside_u : RowsInside (encode_video w h).uv_height (encode_video w h).uv_stride
    (allocate w h).enc_u
  inside_v : RowsInside (encode_video w h).uv_height (encode_video w h).uv_stride
    (allocate w h).enc_v
  even : 2 ∣ frame_offset w ∧ 2 ∣ frame_offset h
  fits : frame_offset w + w ≤ video w ∧ frame_offset h + h ≤ video h
  picture : ∀ (f : PixelFormat) (surface old : ℕ → ℤ), ∀ x < w, ∀ y < h,
    (convertedPlanes f surface old w h).1[(frame_offset h + y) * (encode_video w h).y_stride +
        (frame_offset w + x)]? = some (byte (pixel f surface w x y).y) ∧
      (convertedPlanes f surface old w h).2.1[(frame_offset h + y) / 2 *
        (encode_video w h).uv_stride + (frame_offset w + x) / 2]? =
          some (blockU f surface w x y) ∧
      (convertedPlanes f surface old w h).2.2[(frame_offset h + y) / 2 *
        (encode_video w h).uv_stride + (frame_offset w + x) / 2]? =
          some (blockV f surface w x y)

/-! ### The frame -/

variable {w h x y : ℕ}

theorem video_eq (w : ℕ) : video w = (w + 15) / 16 * 16 := by
  rw [video, Nat.shiftLeft_eq, Nat.shiftRight_eq_div_pow]

/-- Clearing the lowest bit. -/
theorem ldiff_one (n : ℕ) : n.ldiff 1 = n / 2 * 2 := by
  refine Nat.eq_of_testBit_eq fun i => ?_
  rw [Nat.testBit_ldiff]
  cases i with
  | zero => simp
  | succ i => simp [Nat.testBit_succ, Nat.mul_div_cancel _ (show 0 < 2 by omega)]

theorem frame_offset_eq (w : ℕ) : frame_offset w = (video w - w) / 2 / 2 * 2 :=
  ldiff_one _

/-- **The offset is even**, for every size. -/
theorem offset_even (w : ℕ) : 2 ∣ frame_offset w := by
  rw [frame_offset_eq]
  exact Nat.dvd_mul_left 2 _

/-- **The picture is inside the frame**, for every size. -/
theorem offset_fits (w : ℕ) : frame_offset w + w ≤ video w := by
  rw [frame_offset_eq, video_eq]
  omega

theorem video_of_dvd (hw : 16 ∣ w) : video w = w ∧ frame_offset w = 0 := by
  have hvideo : video w = w := by
    rw [video_eq]
    omega
  refine ⟨hvideo, ?_⟩
  rw [frame_offset_eq, hvideo, Nat.sub_self]

/-- Rows inside an allocation: their last byte is. -/
theorem rowsInside_iff {rows stride size : ℕ} (hrows : 0 < rows) (hstride : 0 < stride) :
    RowsInside rows stride size ↔ rows * stride ≤ size := by
  obtain ⟨rows, rfl⟩ : ∃ r, rows = r + 1 := ⟨rows - 1, by omega⟩
  rw [Nat.succ_mul]
  constructor
  · intro h
    have hlast := h rows (by omega) (stride - 1) (by omega)
    omega
  · intro h row hrow col hcol
    have hle : row * stride ≤ rows * stride := Nat.mul_le_mul_right stride (by omega)
    omega

/-! ### The picture -/

variable {f : PixelFormat} {surface old : ℕ → ℤ}

/-- **The luma plane** has the pixels of the screen row by row. -/
theorem convertedPlanes_luma (hx : x < w) (hy : y < h) :
    (convertedPlanes f surface old w h).1[y * w + x]? = some (byte (pixel f surface w x y).y) := by
  have hpos : y * w + x < w * h := by
    calc y * w + x < y * w + w := by omega
      _ = w * (y + 1) := by rw [Nat.mul_succ, Nat.mul_comm]
      _ ≤ w * h := Nat.mul_le_mul_left w hy
  have hyuyv : 2 * (y * w + x) = y * (2 * w) + 2 * x := by
    rw [Nat.mul_add, Nat.mul_left_comm]
  rw [convertedPlanes, ccvt_yuyv_420p, List.getElem?_map, List.getElem?_range hpos,
    Option.map_some, hyuyv, f.convert_eq, getElem?_mlt_convert hx hy]
  rfl

/-- The chroma of two pixels of a row, in YUYV. -/
theorem convert_chroma (f : PixelFormat) (surface : ℕ → ℤ) {k : ℕ} (hk : 2 * k + 1 < w)
    (hy : y < h) :
    (f.convert surface w h)[y * (2 * w) + (4 * k + 1)]? =
        some (mean (pixel f surface w (2 * k) y).u (pixel f surface w (2 * k + 1) y).u) ∧
      (f.convert surface w h)[y * (2 * w) + (4 * k + 3)]? =
        some (mean (pixel f surface w (2 * k) y).v (pixel f surface w (2 * k + 1) y).v) := by
  have hfirst : 4 * w * y + 4 * (2 * k) = 4 * w * y + 8 * k := by omega
  have hsecond : 4 * w * y + 4 * (2 * k + 1) = 4 * w * y + 8 * k + 4 := by omega
  rw [f.convert_eq, pixel, pixel, hfirst, hsecond]
  exact getElem?_mlt_convert_chroma hk hy

/-- **The chroma planes** of a screen of even size have its blocks row by row. -/
theorem convertedPlanes_chroma (hw : 2 ∣ w) (hh : 2 ∣ h) (hx : x < w) (hy : y < h) :
    (convertedPlanes f surface old w h).2.1[y / 2 * (w / 2) + x / 2]? =
        some (blockU f surface w x y) ∧
      (convertedPlanes f surface old w h).2.2[y / 2 * (w / 2) + x / 2]? =
        some (blockV f surface w x y) := by
  have hk : 2 * (x / 2) + 1 < w := by omega
  have hq : y / 2 < (h + 1) / 2 := by omega
  obtain ⟨hu₁, hv₁⟩ := convert_chroma f surface hk
    (show 2 * (y / 2) < h by omega)
  obtain ⟨hu₂, hv₂⟩ := convert_chroma f surface hk
    (show 2 * (y / 2) + 1 < h by omega)
  have hrow₁ : 1 + 4 * w * (y / 2) + 4 * (x / 2) = 2 * (y / 2) * (2 * w) + (4 * (x / 2) + 1) := by
    ring
  have hrow₂ : 1 + 4 * w * (y / 2) + 2 * w + 4 * (x / 2) =
      (2 * (y / 2) + 1) * (2 * w) + (4 * (x / 2) + 1) := by
    ring
  rw [convertedPlanes, ccvt_yuyv_420p, List.getElem?_map, List.getElem?_map,
    getElem?_chromaRows hw hq (by omega), hrow₁, hrow₂]
  simp only [Nat.add_assoc, Nat.reduceAdd, hu₁, hu₂, hv₁, hv₂, Option.getD_some, Option.map_some]
  exact ⟨rfl, rfl⟩

/-! ### The sizes that fit -/

/-- The frame is larger than the screen unless its size is a multiple of sixteen. -/
theorem lt_video (hw : ¬ 16 ∣ w) : w < video w := by
  rw [video_eq]
  omega

theorem le_video (w : ℕ) : w ≤ video w := by
  rw [video_eq]
  omega

/-- The luma plane is large enough for sizes that are multiples of sixteen only. -/
theorem dvd_of_inside (hw : 1 ≤ w) (hh : 1 ≤ h)
    (hin : RowsInside (encode_video w h).y_height (encode_video w h).y_stride
      (allocate w h).enc_y) :
    16 ∣ w ∧ 16 ∣ h := by
  have hvw := le_video w
  have hvh := le_video h
  have hle : video h * video w ≤ w * h :=
    (rowsInside_iff (by omega) (by omega : 0 < video w)).mp hin
  rw [Nat.mul_comm] at hle
  constructor
  · by_contra hnot
    exact absurd (Nat.mul_lt_mul_of_lt_of_le (lt_video hnot) hvh (by omega)) (Nat.not_lt_of_le hle)
  · by_contra hnot
    exact absurd (Nat.mul_lt_mul_of_le_of_lt hvw (lt_video hnot) (by omega)) (Nat.not_lt_of_le hle)

/-- **The planes are what Theora takes them for** exactly when both sizes of the screen are
multiples of sixteen: they are laid out for the screen, and read as if for the frame. -/
theorem planes_iff (hw : 1 ≤ w) (hh : 1 ≤ h) : PlanesOk w h ↔ 16 ∣ w ∧ 16 ∣ h := by
  refine ⟨fun hok => dvd_of_inside hw hh hok.inside_y, fun ⟨hdw, hdh⟩ => ?_⟩
  obtain ⟨hvw, how⟩ := video_of_dvd hdw
  obtain ⟨hvh, hoh⟩ := video_of_dvd hdh
  have hhalf : ∀ n, n >>> 1 = n / 2 := Nat.shiftRight_one
  have hquarter : h / 2 * (w / 2) ≤ w * h / 2 := by
    rw [Nat.le_div_iff_mul_le (by omega)]
    calc h / 2 * (w / 2) * 2 = h / 2 * (w / 2 * 2) := Nat.mul_assoc _ _ _
      _ ≤ h * w := Nat.mul_le_mul (Nat.div_le_self h 2) (Nat.div_mul_le_self w 2)
      _ = w * h := Nat.mul_comm h w
  have hchroma : RowsInside (encode_video w h).uv_height (encode_video w h).uv_stride
      (allocate w h).enc_u := by
    change RowsInside (video h >>> 1) (video w >>> 1) (w * h / 2)
    rw [hvh, hvw, hhalf, hhalf, rowsInside_iff (by omega) (by omega)]
    exact hquarter
  refine ⟨?_, hchroma, hchroma, ⟨offset_even w, offset_even h⟩, ⟨offset_fits w, offset_fits h⟩,
    fun f surface old x hx y hy => ?_⟩
  · change RowsInside (video h) (video w) (w * h)
    rw [hvh, hvw, rowsInside_iff (by omega) (by omega)]
    exact (Nat.mul_comm h w).le
  · rw [encode_video, hvw, how, hoh, hhalf, Nat.zero_add, Nat.zero_add]
    exact ⟨convertedPlanes_luma hx hy,
      convertedPlanes_chroma (by omega) (by omega) hx hy⟩

/-- The usual size. -/
theorem planes_iff_640_480 : PlanesOk 640 480 ↔ 16 ∣ 640 ∧ 16 ∣ 480 :=
  planes_iff (by omega) (by omega)

/-- A screen of 400 by 300: Theora reads four rows more than there are. -/
theorem planes_too_small : ¬ ∀ w h, 1 ≤ w → 1 ≤ h → PlanesOk w h := by
  intro hall
  have hlast := (hall 400 300 (by omega) (by omega)).inside_y 303 (by decide) 399 (by decide)
  exact absurd hlast (by decide)

end OggTheoraEncoder

end FreeJ
