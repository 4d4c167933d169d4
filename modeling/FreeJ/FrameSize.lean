import FreeJ.Freeframe
import FreeJ.SdlScreen

/-!
# Sizes of a Frame

All the fields of `Geometry`, as `Geometry::init` of `geometry.cpp` fills them. The products
are of type `int` and are stored into fields of thirty-two and of sixteen bits: `bytewidth`
has fewer bits than the width in bytes may need. Buffers are allocated by `bytesize` and walked
by `bytewidth`, or by the width times the four bytes of a pixel.

An `int` product that does not fit wraps around here; in C it is undefined, and
`Geometry.IntProducts` says when none does.

## Main results

* `FullGeometry.consistent_iff`: the sizes agree if and only if a row has less than 2^14 pixels.
* `FullGeometry.Consistent.holds`: a buffer of `bytesize` bytes then holds all that is read and
  written through it.
-/

namespace FreeJ

/-- `Geometry`, with all its fields. -/
structure FullGeometry extends FrameGeometry where
  /-- size of the whole frame in pixels -/
  pixelsize : ℤ
  /-- size of the whole frame in bytes -/
  bytesize : ℤ
  /-- width of frame in bytes (also called pitch or stride) -/
  bytewidth : ℤ

/-- What a `uint8_t` holds after `z` is stored into it. -/
def uint8 (z : ℤ) : ℤ := z % 2 ^ 8

theorem uint8_range (z : ℤ) : 0 ≤ uint8 z ∧ uint8 z < 2 ^ 8 := by
  simp only [uint8]
  omega

theorem zero_uint16 : 0 ≤ (0 : ℤ) ∧ (0 : ℤ) < 2 ^ 16 := by decide

theorem zero_uint8 : 0 ≤ (0 : ℤ) ∧ (0 : ℤ) < 2 ^ 8 := by decide

/-- `Geometry::Geometry` -/
def FullGeometry.new : FullGeometry where
  x := 0
  y := 0
  w := 0
  h := 0
  bpp := 0
  pixelsize := 0
  bytesize := 0
  bytewidth := 0
  x_range := Freeframe.zero_range
  y_range := Freeframe.zero_range
  w_range := zero_uint16
  h_range := zero_uint16
  bpp_range := zero_uint8

/-- `Geometry::init` -/
def FullGeometry.init (geo : FullGeometry) (nw nh nbpp : ℤ) : FullGeometry :=
  let w := uint16 nw
  let h := uint16 nh
  let bpp := uint8 nbpp
  { geo with
    w := w
    h := h
    bpp := bpp
    w_range := uint16_range nw
    h_range := uint16_range nh
    bpp_range := uint8_range nbpp
    pixelsize := uint32 (int32 (w * h))
    bytesize := uint32 (int32 (int32 (w * h) * (bpp / 8)))
    bytewidth := uint16 (int32 (w * (bpp / 8))) }

/-- `ViewPort::init`, what it does to the geometry: any other than 32 bits is refused. -/
def ViewPort.initGeo (geo : FullGeometry) (w h bpp : ℤ) : Option FullGeometry :=
  if bpp ≠ 32 then none else some (geo.init w h bpp)

/-- `Layer::init`, what it does to the geometry. -/
def Layer.initGeo (geo : FullGeometry) (wdt hgt bpp : ℤ) : FullGeometry := geo.init wdt hgt bpp

/-- The products of `Geometry::init` all fit an `int`. -/
def Geometry.IntProducts (w h bpp : ℤ) : Prop :=
  w * h < 2 ^ 31 ∧ w * h * (bpp / 8) < 2 ^ 31 ∧ w * (bpp / 8) < 2 ^ 31

/-- The sizes are the products of the width, the height and the bytes of a pixel. -/
structure FullGeometry.Consistent (geo : FullGeometry) : Prop where
  pixelsize_eq : geo.pixelsize = geo.w * geo.h
  bytewidth_eq : geo.bytewidth = 4 * geo.w
  bytesize_eq : geo.bytesize = geo.h * geo.bytewidth

/-- What a buffer of `bytesize` bytes has to hold: the rows of a walk by the pitch, and the
four bytes of each pixel at its place in the frame. -/
structure FullGeometry.BufferHolds (geo : FullGeometry) : Prop where
  rows : ∀ row i, 0 ≤ row ∧ row < geo.h → 0 ≤ i ∧ i < geo.bytewidth →
    0 ≤ row * geo.bytewidth + i ∧ row * geo.bytewidth + i < geo.bytesize
  pixels : ∀ x y k, 0 ≤ x ∧ x < geo.w → 0 ≤ y ∧ y < geo.h → 0 ≤ k ∧ k < 4 →
    0 ≤ 4 * (x + y * geo.w) + k ∧ 4 * (x + y * geo.w) + k < geo.bytesize

/-! ### Wrapping twice -/

/-- An `int` stored into a `uint32_t` is the product it was made of, modulo `2 ^ 32`. -/
theorem uint32_int32 (z : ℤ) : uint32 (int32 z) = uint32 z := by
  simp only [uint32, int32]
  exact Int.bmod_emod

/-- A product that wraps around, of a factor that did so already. -/
theorem int32_int32_mul (z k : ℤ) : int32 (int32 z * k) = int32 (z * k) := by
  simp only [int32]
  exact Int.bmod_mul_bmod

/-- `Geometry::init` seen without the sizes. -/
theorem FullGeometry.init_toGeometry (geo : FullGeometry) (nw nh nbpp : ℤ) :
    (geo.init nw nh nbpp).toGeometry = geo.toGeometry.init nw nh := rfl

/-- The size in bytes is the one that the filters allocate their frames with. -/
theorem FullGeometry.init_bytesize (geo : FullGeometry) (nw nh nbpp : ℤ) :
    (geo.init nw nh nbpp).bytesize = (geo.init nw nh nbpp).toFrameGeometry.bytesize := by
  simp only [FullGeometry.init, FrameGeometry.bytesize, int32_int32_mul, uint32_int32]

/-! ### One field at a time -/

section Fields

variable (geo : FullGeometry) {w h : ℤ}

/-- A product of two sizes fits a field of 32 bits. -/
theorem size_mul_range (hw : 0 ≤ w ∧ w < 2 ^ 16) (hh : 0 ≤ h ∧ h < 2 ^ 16) :
    0 ≤ w * h ∧ w * h < 2 ^ 32 := by
  have h0 : 0 ≤ w * h := Int.mul_nonneg hw.1 hh.1
  have h1 : w * h ≤ (2 ^ 16 - 1) * (2 ^ 16 - 1) :=
    Int.mul_le_mul (by omega) (by omega) hh.1 (by decide)
  omega

theorem FullGeometry.init_w (hw : 0 ≤ w ∧ w < 2 ^ 16) (nbpp : ℤ) :
    (geo.init w h nbpp).w = w :=
  Int.emod_eq_of_lt hw.1 hw.2

theorem FullGeometry.init_h (hh : 0 ≤ h ∧ h < 2 ^ 16) (nbpp : ℤ) :
    (geo.init w h nbpp).h = h :=
  Int.emod_eq_of_lt hh.1 hh.2

/-- The number of pixels is the product of the sizes that are stored. -/
theorem FullGeometry.pixelsize_init (nw nh nbpp : ℤ) :
    (geo.init nw nh nbpp).pixelsize = (geo.init nw nh nbpp).w * (geo.init nw nh nbpp).h := by
  have hsize := size_mul_range (uint16_range nw) (uint16_range nh)
  simp only [FullGeometry.init, uint32_int32]
  exact uint32_eq hsize.1 hsize.2

/-- The number of pixels is right for every size. -/
theorem FullGeometry.init_pixelsize (hw : 0 ≤ w ∧ w < 2 ^ 16) (hh : 0 ≤ h ∧ h < 2 ^ 16) :
    (geo.init w h 32).pixelsize = w * h := by
  rw [geo.pixelsize_init, geo.init_w hw 32, geo.init_h hh 32]

/-- The pitch is the width in bytes, modulo `2 ^ 16`. -/
theorem FullGeometry.init_bytewidth (hw : 0 ≤ w ∧ w < 2 ^ 16) :
    (geo.init w h 32).bytewidth = 4 * w % 2 ^ 16 := by
  have hw' : uint16 w = w := Int.emod_eq_of_lt hw.1 hw.2
  have hbpp : uint8 32 / 8 = 4 := rfl
  simp only [FullGeometry.init, hw', hbpp]
  rw [int32_eq (by omega) (by omega), Int.mul_comm]
  rfl

/-- The size in bytes is four times the number of pixels, modulo `2 ^ 32`. -/
theorem FullGeometry.init_bytesize_mod (hw : 0 ≤ w ∧ w < 2 ^ 16) (hh : 0 ≤ h ∧ h < 2 ^ 16) :
    (geo.init w h 32).bytesize = 4 * (w * h) % 2 ^ 32 := by
  have hw' : uint16 w = w := Int.emod_eq_of_lt hw.1 hw.2
  have hh' : uint16 h = h := Int.emod_eq_of_lt hh.1 hh.2
  have hbpp : uint8 32 / 8 = 4 := rfl
  simp only [FullGeometry.init, int32_int32_mul, uint32_int32, hw', hh', hbpp]
  rw [Int.mul_comm]
  rfl

/-- A frame of rows short enough fits a field of 32 bits, whatever its height. -/
theorem four_size_mul_lt (hw : 0 ≤ w ∧ w < 2 ^ 14) (hh : 0 ≤ h ∧ h < 2 ^ 16) :
    4 * (w * h) < 2 ^ 32 := by
  have h1 : w * h ≤ (2 ^ 14 - 1) * (2 ^ 16 - 1) :=
    Int.mul_le_mul (by omega) (by omega) hh.1 (by decide)
  omega

/-- **The sizes of a frame** agree if and only if the width in bytes fits sixteen bits. -/
theorem FullGeometry.init_consistent (hw : 0 ≤ w ∧ w < 2 ^ 16) (hh : 0 ≤ h ∧ h < 2 ^ 16) :
    (geo.init w h 32).Consistent ↔ w < 2 ^ 14 := by
  have hgw := geo.init_w (h := h) hw 32
  have hgh := geo.init_h (w := w) hh 32
  have hwidth := geo.init_bytewidth (h := h) hw
  constructor
  · rintro ⟨-, hbytewidth, -⟩
    rw [hwidth, hgw] at hbytewidth
    omega
  · intro hrow
    have hsize := size_mul_range hw hh
    have hlt := four_size_mul_lt ⟨hw.1, hrow⟩ hh
    have hpitch : (geo.init w h 32).bytewidth = 4 * w := by
      rw [hwidth]
      omega
    refine ⟨?_, ?_, ?_⟩
    · rw [geo.init_pixelsize hw hh, hgw, hgh]
    · rw [hpitch, hgw]
    · rw [geo.init_bytesize_mod hw hh, hgh, hpitch, Int.emod_eq_of_lt (by omega) hlt]
      ring

/-- The products fit an `int` if the last of them, the size in bytes, does. -/
theorem Geometry.intProducts_iff (hw : 0 ≤ w ∧ w < 2 ^ 16) (hh : 0 ≤ h ∧ h < 2 ^ 16) :
    Geometry.IntProducts w h 32 ↔ 4 * w * h < 2 ^ 31 := by
  have h0 : 0 ≤ w * h := Int.mul_nonneg hw.1 hh.1
  have hassoc : 4 * w * h = 4 * (w * h) := Int.mul_assoc 4 w h
  simp only [Geometry.IntProducts]
  constructor
  · rintro ⟨-, hbytes, -⟩
    omega
  · intro hbytes
    exact ⟨by omega, by omega, by omega⟩

end Fields

/-! ### What the sizes are for -/

section Buffers

variable {geo : FullGeometry}

/-- A row of the frame does not reach beyond the next one. -/
theorem row_end_le {a w row h : ℤ} (hw : 0 ≤ w) (ha : a < w) (hr : row < h) :
    row * w + a < h * w := by
  have hmul : (row + 1) * w ≤ h * w := Int.mul_le_mul_of_nonneg_right (by omega) hw
  have hsucc : (row + 1) * w = row * w + w := by ring
  omega

/-- When the sizes agree, a buffer of `bytesize` bytes holds all of the frame. -/
theorem FullGeometry.Consistent.holds (hg : geo.Consistent) : geo.BufferHolds := by
  have hw := geo.w_range.1
  have hpitch : geo.bytesize = geo.h * geo.bytewidth := hg.bytesize_eq
  constructor
  · intro row i hrow hi
    have h0 : 0 ≤ row * geo.bytewidth :=
      Int.mul_nonneg hrow.1 (by rw [hg.bytewidth_eq]; omega)
    have hend := row_end_le (by rw [hg.bytewidth_eq]; omega) hi.2 hrow.2
    omega
  · intro x y k hx hy hk
    have h0 : 0 ≤ y * geo.w := Int.mul_nonneg hy.1 hw
    have hend := row_end_le hw hx.2 hy.2
    have hbytes : geo.bytesize = 4 * (geo.h * geo.w) := by
      rw [hpitch, hg.bytewidth_eq]
      ring
    omega

end Buffers

/-- **Consistent sizes.** Whatever size that fits the fields a screen or a layer is
initialised with, at 32 bits per pixel: the geometry has that size, its sizes in pixels and in
bytes and its pitch agree, and a buffer holds what is walked, if and only if a row has less
than `2 ^ 14` pixels. The products the sizes were computed by fit an `int` if and only if the
frame has less than `2 ^ 31` bytes. -/
theorem FullGeometry.consistent_iff {old geo : FullGeometry} {w h : ℤ}
    (hw : 0 ≤ w ∧ w < 2 ^ 16) (hh : 0 ≤ h ∧ h < 2 ^ 16)
    (hinit : ViewPort.initGeo old w h 32 = some geo ∨ Layer.initGeo old w h 32 = geo) :
    geo.w = w ∧ geo.h = h ∧ (geo.Consistent ∧ geo.BufferHolds ↔ w < 2 ^ 14) ∧
      (Geometry.IntProducts w h 32 ↔ 4 * w * h < 2 ^ 31) := by
  have hgeo : old.init w h 32 = geo := by
    rcases hinit with h | h
    · simpa [ViewPort.initGeo] using h
    · exact h
  rw [← hgeo]
  have hrow := old.init_consistent hw hh
  refine ⟨old.init_w hw 32, old.init_h hh 32, ?_, Geometry.intProducts_iff hw hh⟩
  constructor
  · exact fun h => hrow.1 h.1
  · exact fun h => ⟨hrow.2 h, (hrow.2 h).holds⟩

/-- A screen of 640 by 480. -/
theorem FullGeometry.consistent_iff_vga :
    ∃ geo, ViewPort.initGeo .new 640 480 32 = some geo ∧ geo.Consistent ∧ geo.BufferHolds ∧
      geo.bytesize = 1228800 := by
  refine ⟨_, rfl, ?_⟩
  have h := FullGeometry.consistent_iff (w := 640) (h := 480) (by decide) (by decide)
    (Or.inl (rfl : ViewPort.initGeo .new 640 480 32 = some _))
  obtain ⟨hc, hb⟩ := h.2.2.1.2 (by decide)
  exact ⟨hc, hb, rfl⟩

/-- A screen of 20000 by 10 is accepted, and its pitch is less than a fifth of a row. -/
theorem FullGeometry.wide_screen :
    ∃ geo, ViewPort.initGeo .new 20000 10 32 = some geo ∧ geo.w = 20000 ∧ geo.h = 10 ∧
      geo.bytewidth = 14464 ∧ geo.bytesize = 800000 ∧ ¬ geo.Consistent := by
  refine ⟨_, rfl, rfl, rfl, rfl, rfl, ?_⟩
  rintro ⟨-, hpitch, -⟩
  have hwrong : (14464 : ℤ) = 4 * 20000 := hpitch
  omega

end FreeJ
