import FreeJ.FrameSize
import FreeJ.CString

/-!
# Addresses of Pixels

`coords` of `soft_screen.cpp` and `sdl_screen.cpp` tells where on the surface of a screen the
pixel at a position is. It computes this apart from `crop` and `blit`, which step from row to
row by the width of the screen; `coords` steps by `Geometry::pixelsize`, which is the size of
the whole frame, and the one of a `SoftScreen` takes a single step whatever the row.

An address is an integer, and `0` is a null pointer. The index of a pixel is of type
`uint32_t` and wraps around; what it is added to is a pointer of more bits, which does not. The
rows of an `SDL_Surface` follow one another without a gap.

## Main results

* `PixelScreen.Dot.blit`: which pixel is written by the blit of a layer of one pixel.
* `coords_agrees_iff`: at which positions, and on which screens, `coords` points to it.
-/

namespace FreeJ

open Transition

/-- `SDL_Surface` -/
structure SDL_Surface where
  pixels : ℤ

/-- What the two classes add to a `ViewPort`. -/
inductive ScreenOutput
  /-- `SoftScreen::screen_buffer` -/
  | SoftScreen (screen_buffer : ℤ)
  /-- `SdlScreen::sdl_screen` -/
  | SdlScreen (sdl_screen : Option SDL_Surface)

/-- A `SoftScreen` or an `SdlScreen`. -/
structure PixelScreen (V : Type*) where
  this : V
  geo : FullGeometry
  output : ScreenOutput

/-- What the library functions that `_init` calls return. -/
structure InitResults where
  malloc : ℤ
  SDL_Init : ℤ
  SDL_GetVideoSurface : Option SDL_Surface

/-- What is done to a screen, with what the libraries return. -/
inductive PixelScreenOp
  | init (w h bpp : ℤ) (lib : InitResults)
  | set_buffer (buf : ℤ)
  | resize (resize_w resize_h : ℤ) (SDL_SetVideoMode : Option SDL_Surface)

/-- The address of a pixel of 32 bits, counted from `surface` on. -/
def pixelAddress (surface i : ℤ) : ℤ := surface + 4 * i

/-! ### The two classes -/

/-- `SoftScreen::get_surface`, with what it prints. -/
def SoftScreen.get_surface (screen_buffer : ℤ) : ℤ × List Message :=
  if screen_buffer = 0 then
    (0, [.error (.ofString "SOFT screen output is not properly initialised via set_buffer"),
      .error (.ofString "this will likely segfault FreeJ")])
  else (screen_buffer, [])

/-- `SoftScreen::coords`, with what it prints. -/
def SoftScreen.coords (geo : FullGeometry) (screen_buffer x _y : ℤ) : ℤ × List Message :=
  let surface := SoftScreen.get_surface screen_buffer
  (pixelAddress surface.1 (uint32 (x + geo.pixelsize)), surface.2)

/-- `SdlScreen::get_surface`; `none` when a null pointer is followed. -/
def SdlScreen.get_surface (sdl_screen : Option SDL_Surface) : Option ℤ :=
  sdl_screen.map SDL_Surface.pixels

/-- `SdlScreen::coords`; `none` when a null pointer is followed. -/
def SdlScreen.coords (geo : FullGeometry) (sdl_screen : Option SDL_Surface) (x y : ℤ) :
    Option ℤ :=
  sdl_screen.map fun surface =>
    pixelAddress surface.pixels (uint32 (x + uint32 (geo.pixelsize * y)))

variable {N V D : Type*}

namespace PixelScreen

/-- `SoftScreen::SoftScreen` -/
def newSoft (this : V) : PixelScreen V := ⟨this, .new, .SoftScreen 0⟩

/-- `SdlScreen::SdlScreen` -/
def newSdl (this : V) : PixelScreen V := ⟨this, .new, .SdlScreen none⟩

/-- `_init` of either class. -/
def _init (s : PixelScreen V) (lib : InitResults) : PixelScreen V × Bool :=
  match s.output with
  | .SoftScreen _ => ({ s with output := .SoftScreen lib.malloc }, true)
  | .SdlScreen _ =>
    if lib.SDL_Init < 0 then (s, false)
    else ({ s with output := .SdlScreen lib.SDL_GetVideoSurface }, true)

/-- `ViewPort::init` -/
def init (s : PixelScreen V) (w h bpp : ℤ) (lib : InitResults) : PixelScreen V × Bool :=
  match ViewPort.initGeo s.geo w h bpp with
  | none => (s, false)
  | some geo => _init { s with geo := geo } lib

/-- `resize` of either class; that of a `SoftScreen` is `ViewPort::resize`, which does nothing. -/
def resize (s : PixelScreen V) (resize_w resize_h : ℤ) (SDL_SetVideoMode : Option SDL_Surface) :
    PixelScreen V :=
  match s.output with
  | .SoftScreen _ => s
  | .SdlScreen _ =>
    { s with geo := s.geo.init resize_w resize_h 32, output := .SdlScreen SDL_SetVideoMode }

/-- What the code does in one step; there is no `set_buffer` for an `SdlScreen`. -/
def exec (s : PixelScreen V) : PixelScreenOp → Option (PixelScreen V)
  | .init w h bpp lib => some (s.init w h bpp lib).1
  | .set_buffer buf =>
    match s.output with
    | .SoftScreen _ => some { s with output := .SoftScreen buf }
    | .SdlScreen _ => none
  | .resize w h video => some (s.resize w h video)

/-- Any steps on a screen that was just made. -/
def system (V : Type*) : System (PixelScreen V) PixelScreenOp :=
  System.ofFun (fun s => s = newSoft s.this ∨ s = newSdl s.this) exec

/-- The screen is an `SdlScreen`. -/
def IsSdl (s : PixelScreen V) : Prop := ∃ sdl_screen, s.output = .SdlScreen sdl_screen

/-- `get_surface` of either class. -/
def get_surface (s : PixelScreen V) : Option ℤ :=
  match s.output with
  | .SoftScreen screen_buffer => some (SoftScreen.get_surface screen_buffer).1
  | .SdlScreen sdl_screen => SdlScreen.get_surface sdl_screen

/-- `coords` of either class. -/
def coords (s : PixelScreen V) (x y : ℤ) : Option ℤ :=
  match s.output with
  | .SoftScreen screen_buffer => some (SoftScreen.coords s.geo screen_buffer x y).1
  | .SdlScreen sdl_screen => SdlScreen.coords s.geo sdl_screen x y

/-- The screen as the crop and the blit see it. -/
def viewPort (s : PixelScreen V) : ViewPort V := ⟨s.this, s.geo.toGeometry⟩

/-- `blit` of either class. -/
def blit [DecidableEq N] [DecidableEq V] (gfx : SDL_gfx D) (s : PixelScreen V)
    (src : SdlLayer N V D) : Option (SdlLayer N V D × List RowCall) :=
  match s.output with
  | .SoftScreen _ => (SoftScreen.blit s.viewPort src.lay).map fun r =>
      ({ src with lay := r.1 }, r.2)
  | .SdlScreen _ => SdlScreen.blit gfx s.viewPort src

/-- A layer of one pixel, neither rotated nor zoomed, that is put at `x,y` of the screen: it is
to be cropped, and blitted row by row. -/
structure Dot (s : PixelScreen V) (src : SdlLayer N V D) (x y : ℤ) : Prop where
  screen : src.lay.screen = s.this
  x_eq : src.lay.geo.x = x
  y_eq : src.lay.geo.y = y
  w_eq : src.lay.geo.w = 1
  h_eq : src.lay.geo.h = 1
  flat : (src.lay.rotating || src.lay.zooming) = false
  need_crop : src.lay.need_crop = true
  linear : ∃ b, src.lay.current_blit = some b ∧
    (b.type = .LINEAR ∨ b.type = .PAST ∧ ¬ s.IsSdl)

section Agrees

variable (N) [DecidableEq N] [DecidableEq V]

/-- `coords` and the blit agree on position `x,y`: `coords` returns the address of pixel
`y * w + x` of the surface, and it is the one at the `scr_offset` of every layer of one pixel
that is put there, the only pixel that its blit writes. -/
structure AgreesAt (gfx : SDL_gfx D) (s : PixelScreen V) (surface x y : ℤ) : Prop where
  coords_eq : s.coords x y = some (pixelAddress surface (y * s.geo.w + x))
  blit_eq : ∀ src : SdlLayer N V D, s.Dot src x y →
    ∃ src' b calls, s.blit gfx src = some (src', calls) ∧ src'.lay.current_blit = some b ∧
      s.coords x y = some (pixelAddress surface b.scr_offset) ∧
      calls.flatMap RowCall.pixels = [(0, b.scr_offset)]

/-- They agree on the whole screen, and different positions have different addresses, of four
bytes each inside the surface. -/
structure Agrees (gfx : SDL_gfx D) (s : PixelScreen V) (surface : ℤ) : Prop where
  agreesAt : ∀ x y, 0 ≤ x ∧ x < s.geo.w → 0 ≤ y ∧ y < s.geo.h →
    s.AgreesAt N gfx surface x y
  inside : ∀ x y, 0 ≤ x ∧ x < s.geo.w → 0 ≤ y ∧ y < s.geo.h →
    ∃ addr, s.coords x y = some addr ∧ surface ≤ addr ∧
      addr + 4 ≤ surface + 4 * (s.geo.w * s.geo.h)
  distinct : ∀ x y x' y', 0 ≤ x ∧ x < s.geo.w → 0 ≤ y ∧ y < s.geo.h →
    0 ≤ x' ∧ x' < s.geo.w → 0 ≤ y' ∧ y' < s.geo.h →
      s.coords x y = s.coords x' y' → x = x' ∧ y = y'

end Agrees

end PixelScreen

/-! ### What is blitted -/

/-- The blit of a layer of one pixel that is inside the screen writes one pixel, the one at its
offset. -/
theorem Blit.Shows.dot {b : Blit} {geo scr : Geometry} (hb : b.Shows geo scr) (hw : geo.w = 1)
    (hh : geo.h = 1) (hx : 0 ≤ geo.x ∧ geo.x < scr.w) (hy : 0 ≤ geo.y ∧ geo.y < scr.h) :
    b.scr_offset = geo.y * scr.w + geo.x ∧
      (SoftScreen.rowLoop b (int16 b.lay_height).toNat b.lay_offset b.scr_offset).flatMap
        RowCall.pixels = [(0, b.scr_offset)] := by
  have hmaxx : max geo.x 0 = geo.x := by omega
  have hmaxy : max geo.y 0 = geo.y := by omega
  have hpitch : b.lay_pitch = 1 := by
    rw [hb.pitch]
    omega
  have hheight : b.lay_height = 1 := by
    rw [hb.height]
    omega
  have hoffset : b.lay_offset = 0 := by
    rw [hb.lay_offset, hw]
    omega
  have hbytes : b.lay_bytepitch = 4 := by
    rw [hb.bytepitch, hpitch]
    rfl
  constructor
  · rw [hb.scr_offset, hmaxx, hmaxy, Int.add_comm]
  · have hrows : (int16 b.lay_height).toNat = 1 := by
      rw [hheight]
      rfl
    rw [hrows, hoffset]
    simp [SoftScreen.rowLoop, RowCall.pixels, hbytes]

namespace PixelScreen

section Dot

variable [DecidableEq N] [DecidableEq V] {s : PixelScreen V} {src : SdlLayer N V D} {x y : ℤ}

omit [DecidableEq N] [DecidableEq V] in
/-- A layer that is neither rotated nor zoomed is drawn without a surface of its own. -/
theorem Dot.prepare (hdot : s.Dot src x y) (gfx : SDL_gfx D) : src.prepare gfx = src := by
  have hflat := hdot.flat
  rw [Bool.or_eq_false_iff] at hflat
  simp only [SdlLayer.prepare, SdlLayer.rotozoom, hflat.1, hflat.2]
  rfl

/-- **The pixel of a position.** The blit of a layer of one pixel at `x,y` writes pixel
`y * w + x` of the screen and no other, and has computed it as its offset. -/
theorem Dot.blit (hdot : s.Dot src x y) (gfx : SDL_gfx D) (hx : 0 ≤ x ∧ x < s.geo.w)
    (hy : 0 ≤ y ∧ y < s.geo.h) :
    ∃ src' b calls, s.blit gfx src = some (src', calls) ∧ src'.lay.current_blit = some b ∧
      b.scr_offset = y * s.geo.w + x ∧ calls.flatMap RowCall.pixels = [(0, b.scr_offset)] := by
  obtain ⟨b, hb, htype⟩ := hdot.linear
  have hrows : b.Rows := htype.imp id And.left
  have hgeo : Blitter.cropGeo src.lay = src.lay.geo := by
    simp only [Blitter.cropGeo, hdot.flat]
    rfl
  have hin : ¬ (Blitter.cropGeo src.lay).OutOf s.viewPort.geo := by
    rw [hgeo]
    simp only [Geometry.OutOf, viewPort, hdot.x_eq, hdot.y_eq, hdot.w_eq, hdot.h_eq]
    omega
  obtain ⟨b', hb', hbt, -, -, -, hcropped⟩ := Blitter.crop_in_spec hb hrows hin
  have hshows := hcropped.shows hin
  rw [hgeo] at hshows
  obtain ⟨hoffset, hpixels⟩ := hshows.dot hdot.w_eq hdot.h_eq (by rwa [hdot.x_eq])
    (by rwa [hdot.y_eq])
  rw [hdot.x_eq, hdot.y_eq] at hoffset
  cases hout : s.output with
  | SoftScreen buf =>
      refine ⟨{ src with lay := Blitter.crop src.lay s.viewPort }, b', _, ?_, hb', hoffset,
        hpixels⟩
      have hscreen : src.lay.screen = s.viewPort.this := hdot.screen
      simp only [PixelScreen.blit, hout]
      rw [SoftScreen.blit_eq hscreen hdot.need_crop hb', Option.map_some]
  | SdlScreen sdl =>
      have hlin : b'.type = .LINEAR := by
        rw [hbt]
        exact htype.resolve_right fun hp => hp.2 ⟨sdl, hout⟩
      have hcrop : (src.prepare gfx).cropNeeded s.viewPort =
          { src with toBlitLayer := src.crop s.viewPort } := by
        rw [hdot.prepare, SdlLayer.cropNeeded, if_pos hdot.need_crop]
      have hblit : ((src.prepare gfx).cropNeeded s.viewPort).lay.current_blit = some b' := by
        rw [hcrop]
        exact hb'
      refine ⟨_, b', _, ?_, hblit, hoffset, hpixels⟩
      simp only [PixelScreen.blit, hout]
      rw [SdlScreen.blit_eq hblit, if_pos hlin]

end Dot

/-! ### The size of the frame -/

theorem _init_geo (s : PixelScreen V) (lib : InitResults) : (s._init lib).1.geo = s.geo := by
  simp only [_init]
  split
  · rfl
  · split <;> rfl

theorem resize_geo (s : PixelScreen V) (w h : ℤ) (video : Option SDL_Surface) :
    (s.resize w h video).geo = s.geo ∨ (s.resize w h video).geo = s.geo.init w h 32 := by
  simp only [resize]
  split
  · exact Or.inl rfl
  · exact Or.inr rfl

/-- The geometry that the crop sees after a resize of an `SdlScreen` is that of
`SdlScreen.resize`. -/
theorem IsSdl.resize_viewPort {s : PixelScreen V} (hsdl : s.IsSdl) (w h : ℤ)
    (video : Option SDL_Surface) :
    (s.resize w h video).viewPort = ⟨s.this, SdlScreen.resize s.geo.toGeometry w h⟩ := by
  obtain ⟨sdl, hout⟩ := hsdl
  simp only [viewPort, resize, hout, FullGeometry.init_toGeometry, SdlScreen.resize]

/-- A screen that was just made and initialised. -/
theorem reachable_init {s : PixelScreen V} (hs : s = newSoft s.this ∨ s = newSdl s.this)
    (w h bpp : ℤ) (lib : InitResults) : Reachable (system V) (s.init w h bpp lib).1 :=
  (Reachable.init hs).step (a := .init w h bpp lib) rfl

/-- In every run the geometry of a screen has `pixelsize` for the number of its pixels. -/
theorem pixelsize_invariant :
    Invariant (system V) fun s => s.geo.pixelsize = s.geo.w * s.geo.h where
  init s h := by rcases h with h | h <;> rw [h] <;> rfl
  step s op t hs ht := by
    cases op with
    | init w h bpp lib =>
        obtain rfl := Option.some.inj ht
        simp only [init]
        cases hgeo : ViewPort.initGeo s.geo w h bpp with
        | none => exact hs
        | some geo =>
            simp only [_init_geo]
            simp only [ViewPort.initGeo] at hgeo
            split at hgeo
            · exact absurd hgeo.symm (Option.some_ne_none geo)
            · obtain rfl := Option.some.inj hgeo
              exact s.geo.pixelsize_init w h bpp
    | set_buffer buf =>
        simp only [system, System.ofFun, exec] at ht
        split at ht
        · obtain rfl := Option.some.inj ht
          exact hs
        · exact absurd ht.symm (Option.some_ne_none t)
    | resize w h video =>
        obtain rfl := Option.some.inj ht
        rcases s.resize_geo w h video with hgeo | hgeo
        · rw [hgeo]
          exact hs
        · rw [hgeo]
          exact s.geo.pixelsize_init w h 32

/-! ### The index of a pixel -/

/-- The index that `coords` adds to the surface. -/
def index (s : PixelScreen V) (x y : ℤ) : ℤ :=
  match s.output with
  | .SoftScreen _ => uint32 (x + s.geo.pixelsize)
  | .SdlScreen _ => uint32 (x + uint32 (s.geo.pixelsize * y))

variable {s : PixelScreen V} {surface x y : ℤ}

/-- `coords` counts from the surface that `get_surface` returns. -/
theorem coords_index (hsurface : s.get_surface = some surface) (x y : ℤ) :
    s.coords x y = some (pixelAddress surface (s.index x y)) := by
  cases hout : s.output with
  | SoftScreen buf =>
      simp only [get_surface, hout, Option.some.injEq] at hsurface
      simp only [coords, index, SoftScreen.coords, hout, hsurface]
  | SdlScreen sdl =>
      simp only [get_surface, SdlScreen.get_surface, hout] at hsurface
      obtain ⟨video, rfl, rfl⟩ := Option.map_eq_some_iff.mp hsurface
      simp only [coords, index, SdlScreen.coords, hout, Option.map_some]

theorem pixelAddress_inj {i j : ℤ} (h : pixelAddress surface i = pixelAddress surface j) :
    i = j := by
  simp only [pixelAddress] at h
  omega

/-- The address that `coords` returns is that of one pixel only. -/
theorem coords_eq_iff (hsurface : s.get_surface = some surface) (i : ℤ) :
    s.coords x y = some (pixelAddress surface i) ↔ s.index x y = i := by
  rw [coords_index hsurface, Option.some.injEq]
  exact ⟨pixelAddress_inj, fun h => h ▸ rfl⟩

/-- An index that wrapped around is the one it should be when the two differ by a multiple. -/
theorem uint32_eq_iff {z i : ℤ} (hi : 0 ≤ i ∧ i < 2 ^ 32) : uint32 z = i ↔ 2 ^ 32 ∣ z - i := by
  rw [uint32, Int.dvd_iff_emod_eq_zero, ← Int.emod_eq_emod_iff_emod_sub_eq_zero,
    Int.emod_eq_of_lt hi.1 hi.2]

/-- **The index at a position** is that of its pixel for no position of a `SoftScreen`, and for
a position of an `SdlScreen` when what the rows before it are too long by adds up to a multiple
of `2 ^ 32`. -/
theorem index_eq_iff (hsize : s.geo.pixelsize = s.geo.w * s.geo.h)
    (hx : 0 ≤ x ∧ x < s.geo.w) (hy : 0 ≤ y ∧ y < s.geo.h) :
    s.index x y = y * s.geo.w + x ↔
      s.IsSdl ∧ 2 ^ 32 ∣ s.geo.w * y * (s.geo.h - 1) := by
  have hw := s.geo.w_range
  have hh := s.geo.h_range
  have hrange := index_range hx hy
  have hframe := size_mul_range hw hh
  cases hout : s.output with
  | SoftScreen buf =>
      have hsdl : ¬ s.IsSdl := by
        rintro ⟨sdl, hsdl⟩
        cases hout.symm.trans hsdl
      -- the frame and one more row still fit the index
      have hlt : s.geo.w * s.geo.h + s.geo.w ≤ (2 ^ 16 - 1) * 2 ^ 16 := by
        calc s.geo.w * s.geo.h + s.geo.w = s.geo.w * (s.geo.h + 1) := by ring
          _ ≤ (2 ^ 16 - 1) * 2 ^ 16 :=
            Int.mul_le_mul (by omega) (by omega) (by omega) (by decide)
      refine iff_of_false (fun heq => ?_) fun h => hsdl h.1
      simp only [index, hout, hsize] at heq
      rw [uint32_eq (by omega) (by omega)] at heq
      omega
  | SdlScreen sdl =>
      have hsdl : s.IsSdl := ⟨sdl, hout⟩
      have hwrap : uint32 (x + uint32 (s.geo.w * s.geo.h * y)) =
          uint32 (x + s.geo.w * s.geo.h * y) := by
        simp only [uint32, Int.add_emod_emod]
      have hdiff : x + s.geo.w * s.geo.h * y - (y * s.geo.w + x) =
          s.geo.w * y * (s.geo.h - 1) := by ring
      simp only [index, hout, hsize, hwrap]
      rw [uint32_eq_iff (by omega), hdiff]
      exact (and_iff_right hsdl).symm

/-! ### Where they agree -/

section Where

variable (N) [DecidableEq N] [DecidableEq V] {gfx : SDL_gfx D}

/-- `coords` and the blit agree on a position if and only if the index is that of its pixel. -/
theorem agreesAt_iff (hsurface : s.get_surface = some surface) (hx : 0 ≤ x ∧ x < s.geo.w)
    (hy : 0 ≤ y ∧ y < s.geo.h) :
    s.AgreesAt N gfx surface x y ↔ s.index x y = y * s.geo.w + x := by
  constructor
  · exact fun h => (coords_eq_iff hsurface _).mp h.coords_eq
  · intro hindex
    refine ⟨(coords_eq_iff hsurface _).mpr hindex, fun src hdot => ?_⟩
    obtain ⟨src', b, calls, hblit, hb, hoffset, hpixels⟩ := hdot.blit gfx hx hy
    refine ⟨src', b, calls, hblit, hb, ?_, hpixels⟩
    rw [hoffset]
    exact (coords_eq_iff hsurface _).mpr hindex

variable {N}

/-- When they agree on every position, different positions have different addresses inside the
surface. -/
theorem Agrees.of_agreesAt (h : ∀ x y, 0 ≤ x ∧ x < s.geo.w → 0 ≤ y ∧ y < s.geo.h →
    s.AgreesAt N gfx surface x y) : s.Agrees N gfx surface where
  agreesAt := h
  inside x y hx hy := by
    have hrange := index_range hx hy
    refine ⟨_, (h x y hx hy).coords_eq, ?_, ?_⟩ <;> simp only [pixelAddress] <;> omega
  distinct x y x' y' hx hy hx' hy' heq := by
    rw [(h x y hx hy).coords_eq, (h x' y' hx' hy').coords_eq, Option.some.injEq] at heq
    exact (index_inj hx hx' (pixelAddress_inj heq)).symm

/-- What the first row is too long by is no multiple of `2 ^ 32`. -/
theorem not_dvd_row {w h : ℤ} (hw : 0 < w ∧ w < 2 ^ 16) (hh : 2 ≤ h ∧ h < 2 ^ 16) :
    ¬ 2 ^ 32 ∣ w * 1 * (h - 1) := by
  intro hdvd
  have hpos : 0 < w * (h - 1) := Int.mul_pos hw.1 (by omega)
  have hlt := (size_mul_range (w := w) (h := h - 1) (by omega) (by omega)).2
  rw [Int.mul_one] at hdvd
  exact hpos.ne' (Int.eq_zero_of_dvd_of_nonneg_of_lt hpos.le hlt hdvd)

end Where

end PixelScreen

/-- **Where `coords` agrees with the blit.** On every screen that can be reached and has a
surface, they agree on a position if and only if it is an `SdlScreen` and `2 ^ 32` divides
`w * y * (h - 1)`, which is so in the first row; and on the whole screen, with different
addresses inside the surface for different positions, if and only if it has no pixels or is an
`SdlScreen` of a single row. -/
theorem coords_agrees_iff (N : Type*) [DecidableEq N] [DecidableEq V] (gfx : SDL_gfx D)
    {s : PixelScreen V} {surface : ℤ} (hr : Reachable (PixelScreen.system V) s)
    (hsurface : s.get_surface = some surface) :
    (∀ x y, 0 ≤ x ∧ x < s.geo.w → 0 ≤ y ∧ y < s.geo.h →
      (s.AgreesAt N gfx surface x y ↔ s.IsSdl ∧ 2 ^ 32 ∣ s.geo.w * y * (s.geo.h - 1))) ∧
    (s.Agrees N gfx surface ↔ s.geo.w = 0 ∨ s.geo.h = 0 ∨ s.IsSdl ∧ s.geo.h = 1) := by
  have hsize := PixelScreen.pixelsize_invariant.holds hr
  have hat : ∀ x y, 0 ≤ x ∧ x < s.geo.w → 0 ≤ y ∧ y < s.geo.h →
      (s.AgreesAt N gfx surface x y ↔ s.IsSdl ∧ 2 ^ 32 ∣ s.geo.w * y * (s.geo.h - 1)) :=
    fun x y hx hy => (PixelScreen.agreesAt_iff N hsurface hx hy).trans
      (PixelScreen.index_eq_iff hsize hx hy)
  have hw := s.geo.w_range
  have hh := s.geo.h_range
  refine ⟨hat, ?_, ?_⟩
  · intro hagrees
    by_contra hno
    simp only [not_or, not_and] at hno
    obtain ⟨hw0, hh0, hrow⟩ := hno
    have hfirst := hagrees.agreesAt 0 0 (by omega) (by omega)
    have hsdl := ((hat 0 0 (by omega) (by omega)).mp hfirst).1
    have hh1 := hrow hsdl
    -- the second row is already in the wrong place
    have hsecond := hagrees.agreesAt 0 1 (by omega) (by omega)
    have hdvd := ((hat 0 1 (by omega) (by omega)).mp hsecond).2
    exact PixelScreen.not_dvd_row (by omega) (by omega) hdvd
  · intro hfits
    refine PixelScreen.Agrees.of_agreesAt fun x y hx hy => (hat x y hx hy).mpr ?_
    rcases hfits with hw0 | hh0 | ⟨hsdl, hh1⟩
    · omega
    · omega
    · have hy0 : y = 0 := by omega
      rw [hy0, Int.mul_zero, Int.zero_mul]
      exact ⟨hsdl, Int.dvd_zero _⟩

/-- What the libraries return when all goes well. -/
def InitResults.ok : InitResults := ⟨8192, 0, some ⟨8192⟩⟩

/-- An `SdlScreen` of a single row. -/
theorem coords_agrees_row :
    ∃ s : PixelScreen Unit, s.geo.w = 640 ∧ s.geo.h = 1 ∧ s.Agrees Unit SDL_gfx.scale 8192 := by
  have hr := PixelScreen.reachable_init (s := .newSdl ()) (Or.inr rfl) 640 1 32 .ok
  exact ⟨_, rfl, rfl, (coords_agrees_iff Unit SDL_gfx.scale hr rfl).2.mpr
    (Or.inr (Or.inr ⟨⟨_, rfl⟩, rfl⟩))⟩

/-- **Wrong addresses.** On screens of 640 by 480 that were just initialised, an `SdlScreen` has
for position `0,1` the address where the surface ends, and a `SoftScreen` has it for both `0,0`
and `0,1`. -/
theorem coords_beyond :
    ∃ sdl soft : PixelScreen Unit, Reachable (PixelScreen.system Unit) sdl ∧
      Reachable (PixelScreen.system Unit) soft ∧
      sdl.get_surface = some 8192 ∧ soft.get_surface = some 8192 ∧
      sdl.geo.w = 640 ∧ sdl.geo.h = 480 ∧ soft.geo.w = 640 ∧ soft.geo.h = 480 ∧
      sdl.coords 0 1 = some (pixelAddress 8192 (640 * 480)) ∧
      soft.coords 0 0 = some (pixelAddress 8192 (640 * 480)) ∧
      soft.coords 0 1 = some (pixelAddress 8192 (640 * 480)) ∧
      ¬ sdl.AgreesAt Unit SDL_gfx.scale 8192 0 1 ∧ ¬ soft.AgreesAt Unit SDL_gfx.scale 8192 0 0 := by
  have hsdl := PixelScreen.reachable_init (s := .newSdl ()) (Or.inr rfl) 640 480 32 .ok
  have hsoft := PixelScreen.reachable_init (s := .newSoft ()) (Or.inl rfl) 640 480 32 .ok
  refine ⟨_, _, hsdl, hsoft, rfl, rfl, rfl, rfl, rfl, rfl, rfl, rfl, rfl, fun h => ?_, fun h => ?_⟩
  · exact absurd h.coords_eq (by decide)
  · exact absurd h.coords_eq (by decide)

end FreeJ
