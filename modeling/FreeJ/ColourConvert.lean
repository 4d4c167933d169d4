import Mathlib.Data.Int.Basic
import Mathlib.Data.List.Basic

/-!
# Colour Conversion for the Encoder

What `VideoEncoder::thread_loop` does to the picture before it is encoded. One of three
functions of `convertvid.cpp`, by the pixel format of the screen, converts it to YUYV: two bytes
for each pixel, its Y and, for each two pixels of a row, the mean of their U and of their V.
Then `ccvt_yuyv_420p` takes this apart into three planes, one with the Y of every pixel and two
with a U and a V for each block of four pixels.

The functions write through pointers that only go forward; what they write is a list here, in
the order in which it is written. What they read is memory, which they may leave.

## Main results

* `getElem?_mlt_convert`, `getElem?_mlt_convert_chroma`: where a pixel is in YUYV.
* `getElem?_chromaRows`: what the planes hold for a block.
-/

namespace FreeJ

/-- A colour as luma and chroma. -/
structure Yuv where
  y : ℤ
  u : ℤ
  v : ℤ

/-- `RGB2YUV` -/
def RGB2YUV (r g b : ℤ) : Yuv where
  y := ((263 * r + 516 * g + 100 * b) >>> (10 : ℕ)) + 16
  u := ((-152 * r - 298 * g + 450 * b) >>> (10 : ℕ)) + 128
  v := ((450 * r - 377 * g - 73 * b) >>> (10 : ℕ)) + 128

/-- An `int` in a `uint8_t`. -/
def byte (x : ℤ) : ℤ := x % 256

/-- The mean of two chroma values, in YUYV. -/
def mean (a b : ℤ) : ℤ := byte ((a + b) >>> (1 : ℕ))

/-- A row of `n` pixels in YUYV, from the address `s` on. -/
def convertRow (yuv : ℕ → Yuv) : ℕ → ℕ → List ℤ
  | 0, _ => []
  | 1, s => [byte (yuv s).y, byte (yuv s).u] -- `width % 2`
  | n + 2, s =>
    byte (yuv s).y :: mean (yuv s).u (yuv (s + 4)).u ::
      byte (yuv (s + 4)).y :: mean (yuv s).v (yuv (s + 4)).v :: convertRow yuv n (s + 8)

/-- What the conversions have in common; `yuv` reads the pixel at an address. No alpha plane
is asked for. -/
def mlt_convert (yuv : ℕ → Yuv) (width height stride : ℕ) : List ℤ :=
  (List.range height).flatMap fun i => convertRow yuv width (stride * i)

def mlt_convert_rgb24a_to_yuv422 (rgba : ℕ → ℤ) : ℕ → ℕ → ℕ → List ℤ :=
  mlt_convert fun s => RGB2YUV (rgba s) (rgba (s + 1)) (rgba (s + 2))

def mlt_convert_bgr24a_to_yuv422 (rgba : ℕ → ℤ) : ℕ → ℕ → ℕ → List ℤ :=
  mlt_convert fun s => RGB2YUV (rgba (s + 2)) (rgba (s + 1)) (rgba s)

def mlt_convert_argb_to_yuv422 (rgba : ℕ → ℤ) : ℕ → ℕ → ℕ → List ℤ :=
  mlt_convert fun s => RGB2YUV (rgba (s + 1)) (rgba (s + 2)) (rgba (s + 3))

/-- The pixel formats of a screen that can be encoded. -/
inductive PixelFormat
  | RGBA32
  | BGRA32
  | ARGB32

/-- The pixel at an address. -/
def PixelFormat.yuv (surface : ℕ → ℤ) (s : ℕ) : PixelFormat → Yuv
  | .RGBA32 => RGB2YUV (surface s) (surface (s + 1)) (surface (s + 2))
  | .BGRA32 => RGB2YUV (surface (s + 2)) (surface (s + 1)) (surface s)
  | .ARGB32 => RGB2YUV (surface (s + 1)) (surface (s + 2)) (surface (s + 3))

/-- The `switch` of `thread_loop`. -/
def PixelFormat.convert (surface : ℕ → ℤ) (w h : ℕ) : PixelFormat → List ℤ
  | .RGBA32 => mlt_convert_rgb24a_to_yuv422 surface w h (w <<< 2)
  | .BGRA32 => mlt_convert_bgr24a_to_yuv422 surface w h (w <<< 2)
  | .ARGB32 => mlt_convert_argb_to_yuv422 surface w h (w <<< 2)

theorem PixelFormat.convert_eq (surface : ℕ → ℤ) (w h : ℕ) (f : PixelFormat) :
    f.convert surface w h = mlt_convert (fun s => f.yuv surface s) w h (4 * w) := by
  have hstride : w <<< 2 = 4 * w := by
    rw [Nat.shiftLeft_eq]
    omega
  cases f <;> rw [PixelFormat.convert, hstride] <;> rfl

/-- The inner loop of `ccvt_yuyv_420p`, `n` rounds of it: what is written to `du` and `dv`. -/
def chromaRow (src : ℕ → ℤ) : ℕ → ℕ → ℕ → List (ℤ × ℤ)
  | 0, _, _ => []
  | n + 1, s1, s2 =>
    ((src s1 + src s2) / 2, (src (s1 + 2) + src (s2 + 2)) / 2) ::
      chromaRow src n (s1 + 4) (s2 + 4)

/-- `n` rounds of the outer loop. A row of pixels goes from `s1` on, the next one from `s2`; the
row after it is where `s2` gets to. -/
def chromaRows (src : ℕ → ℤ) (width : ℕ) : ℕ → ℕ → List (ℤ × ℤ)
  | 0, _ => []
  | n + 1, s1 =>
    let s2 := s1 + width * 2
    chromaRow src ((width + 1) / 2) s1 s2 ++
      chromaRows src width n (s2 + 4 * ((width + 1) / 2))

/-- `ccvt_yuyv_420p`: the planes for Y, U and V. -/
def ccvt_yuyv_420p (width height : ℕ) (src : ℕ → ℤ) : List ℤ × List ℤ × List ℤ :=
  let chroma := chromaRows src width ((height + 1) / 2) 1
  ((List.range (width * height)).map fun k => src (2 * k), chroma.map Prod.fst,
    chroma.map Prod.snd)

/-- The planes that `thread_loop` makes of the screen, where `enc_yuyv` held `old`. -/
def convertedPlanes (f : PixelFormat) (surface old : ℕ → ℤ) (w h : ℕ) :
    List ℤ × List ℤ × List ℤ :=
  ccvt_yuyv_420p w h fun k => ((f.convert surface w h)[k]?).getD (old k)

/-! ### Rows -/

variable {α : Type*}

/-- An entry of a row, where all rows have the same length. -/
theorem getElem?_flatMap_range {f : ℕ → List α} {n m i j : ℕ} (hlength : ∀ i, (f i).length = m)
    (hi : i < n) (hj : j < m) : ((List.range n).flatMap f)[i * m + j]? = (f i)[j]? := by
  have hrows : ∀ k, ((List.range k).flatMap f).length = k * m := by
    intro k
    induction k with
    | zero => simp
    | succ k ih =>
        rw [List.range_succ, List.flatMap_append, List.length_append, ih,
          List.flatMap_singleton, hlength, Nat.succ_mul]
  induction n with
  | zero => omega
  | succ n ih =>
      rw [List.range_succ, List.flatMap_append, List.flatMap_singleton]
      by_cases hin : i = n
      · subst hin
        rw [List.getElem?_append_right (by rw [hrows]; omega), hrows, Nat.add_sub_cancel_left]
      · have hlt : i * m + j < n * m := by
          calc i * m + j < i * m + m := by omega
            _ = (i + 1) * m := (Nat.succ_mul i m).symm
            _ ≤ n * m := Nat.mul_le_mul_right m (by omega)
        rw [List.getElem?_append_left (by rwa [hrows])]
        exact ih (by omega)

/-! ### YUYV -/

variable (yuv : ℕ → Yuv)

@[simp] theorem length_convertRow (n s : ℕ) : (convertRow yuv n s).length = 2 * n := by
  fun_induction convertRow with
  | case1 => rfl
  | case2 => rfl
  | case3 n s ih =>
      simp only [List.length_cons, ih]
      omega

/-- The luma of a pixel of a row. -/
theorem getElem?_convertRow {n s j : ℕ} (hj : j < n) :
    (convertRow yuv n s)[2 * j]? = some (byte (yuv (s + 4 * j)).y) := by
  fun_induction convertRow yuv n s generalizing j with
  | case1 => omega
  | case2 s =>
      obtain rfl : j = 0 := by omega
      rfl
  | case3 n s ih =>
      rcases j with _ | _ | j
      · rfl
      · rfl
      · have hnext := ih (j := j) (by omega)
        rw [show s + 4 * (j + 2) = s + 8 + 4 * j by omega, ← hnext]
        rfl

/-- The chroma of two pixels of a row. -/
theorem getElem?_convertRow_chroma {n s j : ℕ} (hj : 2 * j + 1 < n) :
    (convertRow yuv n s)[4 * j + 1]? =
        some (mean (yuv (s + 8 * j)).u (yuv (s + 8 * j + 4)).u) ∧
      (convertRow yuv n s)[4 * j + 3]? =
        some (mean (yuv (s + 8 * j)).v (yuv (s + 8 * j + 4)).v) := by
  fun_induction convertRow yuv n s generalizing j with
  | case1 => omega
  | case2 s => omega
  | case3 n s ih =>
      rcases j with _ | j
      · exact ⟨rfl, rfl⟩
      · have hnext := ih (j := j) (by omega)
        rw [show s + 8 * (j + 1) = s + 8 + 8 * j by omega]
        exact hnext

variable {yuv} {w h x y : ℕ}

/-- Where the luma of the pixel at `x`, `y` is. -/
theorem getElem?_mlt_convert {stride : ℕ} (hx : x < w) (hy : y < h) :
    (mlt_convert yuv w h stride)[y * (2 * w) + 2 * x]? =
      some (byte (yuv (stride * y + 4 * x)).y) := by
  rw [mlt_convert, getElem?_flatMap_range (fun _ => length_convertRow yuv w _) hy (by omega),
    getElem?_convertRow yuv hx]

/-- Where the chroma of the pixels at `2 * k` and `2 * k + 1` of row `y` is. -/
theorem getElem?_mlt_convert_chroma {stride k : ℕ} (hk : 2 * k + 1 < w) (hy : y < h) :
    (mlt_convert yuv w h stride)[y * (2 * w) + (4 * k + 1)]? =
        some (mean (yuv (stride * y + 8 * k)).u (yuv (stride * y + 8 * k + 4)).u) ∧
      (mlt_convert yuv w h stride)[y * (2 * w) + (4 * k + 3)]? =
        some (mean (yuv (stride * y + 8 * k)).v (yuv (stride * y + 8 * k + 4)).v) := by
  have hrow := fun i => length_convertRow yuv w (stride * i)
  rw [mlt_convert, getElem?_flatMap_range hrow hy (by omega),
    getElem?_flatMap_range hrow hy (by omega)]
  exact getElem?_convertRow_chroma yuv hk

/-! ### Planes -/

variable {src : ℕ → ℤ}

@[simp] theorem length_chromaRow (n s1 s2 : ℕ) : (chromaRow src n s1 s2).length = n := by
  induction n generalizing s1 s2 with
  | zero => rfl
  | succ n ih => rw [chromaRow, List.length_cons, ih]

theorem getElem?_chromaRow {n s1 s2 k : ℕ} (hk : k < n) : (chromaRow src n s1 s2)[k]? =
    some ((src (s1 + 4 * k) + src (s2 + 4 * k)) / 2,
      (src (s1 + 4 * k + 2) + src (s2 + 4 * k + 2)) / 2) := by
  induction n generalizing s1 s2 k with
  | zero => omega
  | succ n ih =>
      cases k with
      | zero => rfl
      | succ k =>
          rw [chromaRow, List.getElem?_cons_succ, ih (by omega),
            show s1 + 4 * (k + 1) = s1 + 4 + 4 * k by omega,
            show s2 + 4 * (k + 1) = s2 + 4 + 4 * k by omega]

/-- The chroma of the block `k` of the pair of rows `q`, for an even width. -/
theorem getElem?_chromaRows {n s1 q k : ℕ} (hw : 2 ∣ w) (hq : q < n) (hk : k < w / 2) :
    (chromaRows src w n s1)[q * (w / 2) + k]? =
      some ((src (s1 + 4 * w * q + 4 * k) + src (s1 + 4 * w * q + 2 * w + 4 * k)) / 2,
        (src (s1 + 4 * w * q + 4 * k + 2) + src (s1 + 4 * w * q + 2 * w + 4 * k + 2)) / 2) := by
  have hround : (w + 1) / 2 = w / 2 := by omega
  induction n generalizing s1 q with
  | zero => omega
  | succ n ih =>
      rw [chromaRows, hround]
      cases q with
      | zero =>
          rw [Nat.zero_mul, Nat.zero_add, List.getElem?_append_left (by simpa using hk),
            getElem?_chromaRow hk, Nat.mul_comm w 2]
          rfl
      | succ q =>
          have hpos : (q + 1) * (w / 2) + k - w / 2 = q * (w / 2) + k := by
            rw [Nat.succ_mul]
            omega
          have hrow : s1 + w * 2 + 4 * (w / 2) + 4 * w * q = s1 + 4 * w * (q + 1) := by
            have hsucc : 4 * w * (q + 1) = 4 * w * q + 4 * w := Nat.mul_succ _ _
            omega
          rw [List.getElem?_append_right (by rw [length_chromaRow, Nat.succ_mul]; omega),
            length_chromaRow, hpos, ih (by omega), hrow]

end FreeJ
