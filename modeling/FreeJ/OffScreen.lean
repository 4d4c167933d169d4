import FreeJ.Blitter

/-!
# Layers out of the Screen

`Blitter::crop` does not let a layer drift away: one that is out of the screen is put right
beside the edge it is behind. Sizes are unsigned and positions signed, of sixteen bits both,
and the position that is stored always fits.

## Main results

* `Geometry.off_clamp`: a layer that is clamped is off on the sides it was off on before.
* `Blitter.cropEdges_clamped`: cropping it once more puts it in the same place.
* `Blitter.crop_again`: what a second crop of a layer out of the screen does.
-/

namespace FreeJ

/-- The four sides of the screen, in the order in which `crop` tests them. -/
inductive Side
  | BOTTOM
  | LEFT
  | UP
  | RIGHT
  deriving DecidableEq, Repr

/-- The layer is entirely off the screen on a side. -/
def Geometry.Off (geo : Geometry) : Side → Geometry → Prop
  | .BOTTOM, scr => scr.h < geo.y
  | .LEFT, _ => geo.x + geo.w < 0
  | .UP, _ => geo.y + geo.h < 0
  | .RIGHT, scr => scr.w < geo.x

/-- What `crop` tests is that the layer is off on some side. -/
theorem Geometry.outOf_iff (geo scr : Geometry) : geo.OutOf scr ↔ ∃ s, geo.Off s scr := by
  have hw := geo.w_range
  have hh := geo.h_range
  constructor
  · rintro (⟨-, h⟩ | ⟨-, h⟩ | ⟨-, h⟩ | ⟨-, h⟩)
    · exact ⟨.BOTTOM, h⟩
    · exact ⟨.LEFT, h⟩
    · exact ⟨.UP, h⟩
    · exact ⟨.RIGHT, h⟩
  · rintro ⟨s, hs⟩
    cases s with simp only [Geometry.Off] at hs
    | BOTTOM => exact Or.inl (by omega)
    | LEFT => exact Or.inr (Or.inl (by omega))
    | UP => exact Or.inr (Or.inr (Or.inl (by omega)))
    | RIGHT => exact Or.inr (Or.inr (Or.inr (by omega)))

variable {V : Type*} {geo scr geo' : Geometry} {b b' : Blit}

/-! ### The counters -/

/-- The two blits are one but for the counters, which every crop starts anew. -/
def Blit.SameButCounters (b b' : Blit) : Prop :=
  ∀ geo, Blitter.cropStart geo b' = Blitter.cropStart geo b

/-- An edge leaves the rest of the blit alone. -/
def Blitter.EdgeCounts (b : Blit) : Except (Geometry × Blit) Blit → Prop
  | .ok b' => b.SameButCounters b'
  | .error (_, b') => b.SameButCounters b'

theorem Blitter.EdgeCounts.bind {x : Except (Geometry × Blit) Blit}
    {f : Blit → Except (Geometry × Blit) Blit} (hx : EdgeCounts b x)
    (hf : ∀ b', EdgeCounts b' (f b')) : EdgeCounts b (x >>= f) := by
  cases x with
  | error r => exact hx
  | ok b' =>
      have h := hf b'
      change EdgeCounts b (f b')
      revert h
      cases f b' with
      | error r => exact fun h geo => (h geo).trans (hx geo)
      | ok b'' => exact fun h geo => (h geo).trans (hx geo)

theorem Blitter.cropBottom_counts (geo scr : Geometry) (b : Blit) :
    EdgeCounts b (Blitter.cropBottom geo scr b) := by
  unfold Blitter.cropBottom
  split_ifs <;> exact fun _ => rfl

theorem Blitter.cropLeft_counts (geo : Geometry) (b : Blit) :
    EdgeCounts b (Blitter.cropLeft geo b) := by
  unfold Blitter.cropLeft
  split_ifs <;> exact fun _ => rfl

theorem Blitter.cropUp_counts (geo : Geometry) (b : Blit) :
    EdgeCounts b (Blitter.cropUp geo b) := by
  unfold Blitter.cropUp
  split_ifs <;> exact fun _ => rfl

theorem Blitter.cropRight_counts (geo scr : Geometry) (b : Blit) :
    EdgeCounts b (Blitter.cropRight geo scr b) := by
  unfold Blitter.cropRight
  split_ifs <;> exact fun _ => rfl

theorem Blitter.cropEdges_counts (geo scr : Geometry) (b : Blit) :
    EdgeCounts (Blitter.cropStart geo b) (Blitter.cropEdges geo scr b) :=
  EdgeCounts.bind (Blitter.cropBottom_counts geo scr _) fun _ =>
    EdgeCounts.bind (Blitter.cropLeft_counts geo _) fun _ =>
      EdgeCounts.bind (Blitter.cropUp_counts geo _) fun _ => Blitter.cropRight_counts geo scr _

/-- The edges of a blit that was cropped already are those of the blit before. -/
theorem Blitter.cropEdges_again (h : Blitter.cropEdges geo scr b = .error (geo', b'))
    (geo₂ : Geometry) : Blitter.cropEdges geo₂ scr b' = Blitter.cropEdges geo₂ scr b := by
  have hcounts := Blitter.cropEdges_counts geo scr b
  rw [h] at hcounts
  have hstart : Blitter.cropStart geo₂ b' = Blitter.cropStart geo₂ b := hcounts geo₂
  unfold Blitter.cropEdges
  rw [hstart]

/-! ### The clamped geometry -/

/-- The position that `crop` gives a layer it finds off the screen on a side. -/
def Geometry.clamp (geo scr : Geometry) : Side → Geometry
  | .BOTTOM => geo.setY (scr.h + 1)
  | .LEFT => geo.setX (-(geo.w + 1))
  | .UP => geo.setY (-(geo.h + 1))
  | .RIGHT => geo.setX (scr.w + 1)

/-- Clamping on one side leaves a layer off on the sides it was off on. -/
theorem Geometry.off_clamp {s : Side} (hs : geo.Off s scr) (t : Side) :
    (geo.clamp scr s).Off t scr ↔ geo.Off t scr := by
  have hx := geo.x_range
  have hy := geo.y_range
  have hw := geo.w_range
  have hh := geo.h_range
  have hsw := scr.w_range
  have hsh := scr.h_range
  cases s with simp only [Geometry.Off] at hs
  | BOTTOM =>
      have hclamp : int16 (scr.h + 1) = scr.h + 1 := int16_eq (by omega) (by omega)
      cases t <;> simp only [Geometry.Off, Geometry.clamp, Geometry.setY, hclamp] <;> omega
  | LEFT =>
      have hclamp : int16 (-(geo.w + 1)) = -(geo.w + 1) := int16_eq (by omega) (by omega)
      cases t <;> simp only [Geometry.Off, Geometry.clamp, Geometry.setX, hclamp] <;> omega
  | UP =>
      have hclamp : int16 (-(geo.h + 1)) = -(geo.h + 1) := int16_eq (by omega) (by omega)
      cases t <;> simp only [Geometry.Off, Geometry.clamp, Geometry.setY, hclamp] <;> omega
  | RIGHT =>
      have hclamp : int16 (scr.w + 1) = scr.w + 1 := int16_eq (by omega) (by omega)
      cases t <;> simp only [Geometry.Off, Geometry.clamp, Geometry.setX, hclamp] <;> omega

/-! ### Returning early, side by side -/

theorem Blitter.cropEdges_bottom (h : geo.Off .BOTTOM scr) :
    Blitter.cropEdges geo scr b =
      .error (geo.clamp scr .BOTTOM, Blitter.cropStart geo b) := by
  have hh := geo.h_range
  simp only [Geometry.Off] at h
  simp only [Blitter.cropEdges, Blitter.cropBottom]
  rw [if_pos (by omega), if_pos h]
  rfl

theorem Blitter.cropEdges_left (hbottom : ¬ geo.Off .BOTTOM scr) (h : geo.Off .LEFT scr) :
    Blitter.cropEdges geo scr b =
      .error (geo.clamp scr .LEFT, { Blitter.cropStart geo b with
        lay_height := min (geo.y + geo.h) scr.h - geo.y }) := by
  have hw := geo.w_range
  simp only [Geometry.Off] at hbottom h
  simp only [Blitter.cropEdges]
  rw [Blitter.cropBottom_eq (by omega) rfl]
  simp only [bind, Except.bind, Blitter.cropLeft]
  rw [if_pos (by omega), if_pos h]
  rfl

theorem Blitter.cropEdges_up (hbottom : ¬ geo.Off .BOTTOM scr) (hleft : ¬ geo.Off .LEFT scr)
    (h : geo.Off .UP scr) :
    Blitter.cropEdges geo scr b =
      .error (geo.clamp scr .UP, { Blitter.cropStart geo b with
        lay_height := min (geo.y + geo.h) scr.h - geo.y
        lay_stride_sx := max (-geo.x) 0
        lay_pitch := geo.x + geo.w - max geo.x 0
        scr_stride_sx := max geo.x 0 }) := by
  have hh := geo.h_range
  simp only [Geometry.Off] at hbottom hleft h
  rw [Blitter.cropEdges_past_left (by omega) (by omega)]
  simp only [Blitter.cropUp]
  rw [if_pos (by omega), if_pos h]
  rfl

theorem Blitter.cropEdges_right (hbottom : ¬ geo.Off .BOTTOM scr) (hleft : ¬ geo.Off .LEFT scr)
    (hup : ¬ geo.Off .UP scr) (h : geo.Off .RIGHT scr) :
    Blitter.cropEdges geo scr b =
      .error (geo.clamp scr .RIGHT, { Blitter.cropStart geo b with
        lay_height := min (geo.y + geo.h) scr.h - max geo.y 0
        lay_stride_sx := max (-geo.x) 0
        lay_pitch := geo.x + geo.w - max geo.x 0
        scr_stride_sx := max geo.x 0
        lay_stride_up := max (-geo.y) 0
        scr_stride_up := max geo.y 0 }) := by
  have hw := geo.w_range
  simp only [Geometry.Off] at hbottom hleft hup h
  rw [Blitter.cropEdges_past_up (by omega) (by omega) (by omega)]
  simp only [Blitter.cropRight]
  rw [if_pos (by omega), if_pos h]
  rfl

/-- The side on which `crop` finds a layer off first. -/
def Geometry.FirstOff (geo : Geometry) (s : Side) (scr : Geometry) : Prop :=
  geo.Off s scr ∧
    match s with
    | .BOTTOM => True
    | .LEFT => ¬ geo.Off .BOTTOM scr
    | .UP => ¬ geo.Off .BOTTOM scr ∧ ¬ geo.Off .LEFT scr
    | .RIGHT => ¬ geo.Off .BOTTOM scr ∧ ¬ geo.Off .LEFT scr ∧ ¬ geo.Off .UP scr

/-- A layer that is off is off on some side first. -/
theorem Geometry.exists_firstOff {s : Side} (h : geo.Off s scr) :
    ∃ t, geo.FirstOff t scr := by
  by_cases hbottom : geo.Off .BOTTOM scr
  · exact ⟨.BOTTOM, hbottom, trivial⟩
  by_cases hleft : geo.Off .LEFT scr
  · exact ⟨.LEFT, hleft, hbottom⟩
  by_cases hup : geo.Off .UP scr
  · exact ⟨.UP, hup, hbottom, hleft⟩
  cases s with
  | BOTTOM => exact absurd h hbottom
  | LEFT => exact absurd h hleft
  | UP => exact absurd h hup
  | RIGHT => exact ⟨.RIGHT, h, hbottom, hleft, hup⟩

/-- Clamping on a side does not change which side a layer is off on first. -/
theorem Geometry.firstOff_clamp {s : Side} (hs : geo.FirstOff s scr) :
    (geo.clamp scr s).FirstOff s scr := by
  obtain ⟨hoff, hfirst⟩ := hs
  refine ⟨(Geometry.off_clamp hoff s).2 hoff, ?_⟩
  cases s with
  | BOTTOM => trivial
  | LEFT => exact mt (Geometry.off_clamp hoff _).1 hfirst
  | UP =>
      exact ⟨mt (Geometry.off_clamp hoff _).1 hfirst.1, mt (Geometry.off_clamp hoff _).1 hfirst.2⟩
  | RIGHT =>
      exact ⟨mt (Geometry.off_clamp hoff _).1 hfirst.1,
        mt (Geometry.off_clamp hoff _).1 hfirst.2.1, mt (Geometry.off_clamp hoff _).1 hfirst.2.2⟩

/-- A layer that is clamped already is clamped to where it is. -/
theorem Geometry.clamp_clamp (geo scr : Geometry) (s : Side) :
    (geo.clamp scr s).clamp scr s = geo.clamp scr s := by
  cases s <;> rfl

/-- **Cropping a clamped layer.** The edges of a layer that was off on a side first clamp it
there, and the edges of the clamped layer do so again, with the same counters but for one: to
the right the pixels to stride over on the screen are counted before it is seen that there is
nothing to show. -/
theorem Blitter.cropEdges_clamped {s : Side} (hs : geo.FirstOff s scr) (b : Blit) :
    ∃ b', Blitter.cropEdges geo scr b = .error (geo.clamp scr s, b') ∧ b'.type = b.type ∧
      ∃ z, Blitter.cropEdges (geo.clamp scr s) scr b' =
          .error (geo.clamp scr s, { b' with scr_stride_sx := z }) ∧
        (s ≠ .RIGHT → z = b'.scr_stride_sx) := by
  have hclamped := Geometry.firstOff_clamp hs
  have htwice := Geometry.clamp_clamp geo scr s
  have hx := geo.x_range
  have hy := geo.y_range
  have hw := geo.w_range
  have hh := geo.h_range
  have hsw := scr.w_range
  have hsh := scr.h_range
  cases s with
  | BOTTOM =>
      refine ⟨_, Blitter.cropEdges_bottom hs.1, rfl, 0, ?_, fun _ => rfl⟩
      rw [Blitter.cropEdges_bottom hclamped.1, htwice]
      rfl
  | LEFT =>
      refine ⟨_, Blitter.cropEdges_left hs.2 hs.1, rfl, 0, ?_, fun _ => rfl⟩
      rw [Blitter.cropEdges_left hclamped.2 hclamped.1, htwice]
      rfl
  | UP =>
      refine ⟨_, Blitter.cropEdges_up hs.2.1 hs.2.2 hs.1, rfl, max geo.x 0, ?_, fun _ => rfl⟩
      rw [Blitter.cropEdges_up hclamped.2.1 hclamped.2.2 hclamped.1, htwice]
      have hup : geo.y + geo.h < 0 := hs.1
      have hclamp : int16 (-(geo.h + 1)) = -(geo.h + 1) := int16_eq (by omega) (by omega)
      simp only [Geometry.clamp, Geometry.setY, hclamp, Except.error.injEq, Prod.mk.injEq,
        true_and, Blitter.cropStart, Blit.mk.injEq, and_true]
      omega
  | RIGHT =>
      refine ⟨_, Blitter.cropEdges_right hs.2.1 hs.2.2.1 hs.2.2.2 hs.1, rfl, scr.w + 1, ?_,
        fun h => absurd rfl h⟩
      rw [Blitter.cropEdges_right hclamped.2.1 hclamped.2.2.1 hclamped.2.2.2 hclamped.1, htwice]
      have hright : scr.w < geo.x := hs.1
      have hclamp : int16 (scr.w + 1) = scr.w + 1 := int16_eq (by omega) (by omega)
      simp only [Geometry.clamp, Geometry.setX, hclamp, Except.error.injEq, Prod.mk.injEq,
        true_and, Blitter.cropStart, Blit.mk.injEq, and_true]
      omega

/-! ### The crop of a layer -/

/-- The geometry that `Blitter::geo` points to. -/
def Layer.blitGeo (lay : Layer V) : Geometry :=
  if lay.rotating || lay.zooming then lay.geo_rotozoom else lay.geo

variable {lay : Layer V} {scr : ViewPort V}

/-- What `crop` does to a layer that is off on a side first. -/
theorem Blitter.crop_firstOff {s : Side} (hb : lay.current_blit = some b) (hty : b.Rows)
    (hs : (Blitter.cropGeo lay).FirstOff s scr.geo) :
    ∃ b', b'.type = b.type ∧
      Blitter.cropEdges (Blitter.cropGeo lay) scr.geo b =
        .error ((Blitter.cropGeo lay).clamp scr.geo s, b') ∧
      Blitter.crop lay scr =
        { (lay.setGeo (Blitter.cropGeo lay)).setGeo ((Blitter.cropGeo lay).clamp scr.geo s) with
          hidden := true, current_blit := some b' } := by
  obtain ⟨b', hedges, htype, -⟩ := Blitter.cropEdges_clamped hs b
  refine ⟨b', htype, hedges, ?_⟩
  simp only [Blitter.crop]
  rw [hb]
  rcases hty with hty | hty <;> simp only [hty, hedges]

/-- The geometry that a crop of a layer off on a side stores is the clamped one. -/
theorem Blitter.blitGeo_crop {s : Side} (hb : lay.current_blit = some b) (hty : b.Rows)
    (hs : (Blitter.cropGeo lay).FirstOff s scr.geo) :
    (Blitter.crop lay scr).blitGeo = (Blitter.cropGeo lay).clamp scr.geo s := by
  obtain ⟨b', -, -, hcrop⟩ := Blitter.crop_firstOff hb hty hs
  rw [hcrop]
  by_cases hr : (lay.rotating || lay.zooming) = true
  · simp [Layer.blitGeo, Layer.setGeo, hr]
  · simp [Layer.blitGeo, Layer.setGeo, hr]

/-- A rotation is centered anew by the second crop, which so does the same as the first. -/
theorem Blitter.crop_crop_rotating {s : Side} (hb : lay.current_blit = some b) (hty : b.Rows)
    (hs : (Blitter.cropGeo lay).FirstOff s scr.geo)
    (hr : (lay.rotating || lay.zooming) = true) :
    Blitter.crop (Blitter.crop lay scr) scr = Blitter.crop lay scr := by
  obtain ⟨b', htype, hedges, hcrop⟩ := Blitter.crop_firstOff hb hty hs
  have hgeo : Blitter.cropGeo (Blitter.crop lay scr) = Blitter.cropGeo lay := by
    rw [hcrop]
    cases s <;> simp only [Layer.setGeo, hr, if_true, Blitter.cropGeo] <;> rfl
  have hb' : (Blitter.crop lay scr).current_blit = some b' := by rw [hcrop]
  obtain ⟨b'', -, hedges', hcrop'⟩ :=
    Blitter.crop_firstOff hb' (by rwa [Blit.Rows, htype]) (hgeo ▸ hs)
  rw [hgeo, Blitter.cropEdges_again hedges, hedges, Except.error.injEq, Prod.mk.injEq] at hedges'
  rw [hcrop', hgeo, ← hedges'.2, hcrop]
  simp only [Layer.setGeo, hr, if_true]

/-- A layer that is not rotated is clamped to the same position again. -/
theorem Blitter.crop_crop_straight {s : Side} (hb : lay.current_blit = some b) (hty : b.Rows)
    (hs : (Blitter.cropGeo lay).FirstOff s scr.geo)
    (hr : ¬ (lay.rotating || lay.zooming) = true) :
    ∃ b' z, (Blitter.crop lay scr).current_blit = some b' ∧
      Blitter.crop (Blitter.crop lay scr) scr =
        { Blitter.crop lay scr with current_blit := some { b' with scr_stride_sx := z } } ∧
      (s ≠ .RIGHT → z = b'.scr_stride_sx) := by
  obtain ⟨b', htype, hedges, hcrop⟩ := Blitter.crop_firstOff hb hty hs
  obtain ⟨c, hc, -, z, hz, hsame⟩ := Blitter.cropEdges_clamped hs b
  rw [hedges, Except.error.injEq, Prod.mk.injEq] at hc
  obtain ⟨-, rfl⟩ := hc
  have hgeo : Blitter.cropGeo (Blitter.crop lay scr) = (Blitter.cropGeo lay).clamp scr.geo s := by
    rw [hcrop]
    simp [Layer.setGeo, hr, Blitter.cropGeo]
  have hb' : (Blitter.crop lay scr).current_blit = some b' := by rw [hcrop]
  obtain ⟨b'', -, hedges', hcrop'⟩ :=
    Blitter.crop_firstOff hb' (by rwa [Blit.Rows, htype])
      (hgeo ▸ Geometry.firstOff_clamp hs)
  rw [hgeo, hz, Geometry.clamp_clamp, Except.error.injEq, Prod.mk.injEq] at hedges'
  refine ⟨b', z, hb', ?_, hsame⟩
  rw [hcrop', hgeo, Geometry.clamp_clamp, ← hedges'.2, hcrop]
  simp [Layer.setGeo, hr]

/-- **A second crop.** A layer that `crop` finds out of the screen is off on some side, the
geometry that is stored is off on every side on which the layer was, and a second crop finds
it out again and leaves the layer, its blit included, as the first one did. The exception is
a counter of the blit that is of no use by then, the pixels to stride over on the screen, of
a layer that is off on the right alone and neither rotated nor zoomed. A layer that `crop`
does not find out of the screen keeps its position. -/
theorem Blitter.crop_again (hb : lay.current_blit = some b) (hty : b.type = .LINEAR) :
    ((Blitter.crop lay scr).hidden = true →
      (∃ s, (Blitter.cropGeo lay).Off s scr.geo) ∧
      (∀ s, (Blitter.cropGeo lay).Off s scr.geo →
        (Blitter.crop lay scr).blitGeo.Off s scr.geo) ∧
      (Blitter.crop (Blitter.crop lay scr) scr).hidden = true ∧
      ∃ b' z, (Blitter.crop lay scr).current_blit = some b' ∧
        Blitter.crop (Blitter.crop lay scr) scr =
          { Blitter.crop lay scr with current_blit := some { b' with scr_stride_sx := z } } ∧
        (lay.rotating = true ∨ lay.zooming = true ∨
            (∃ s, s ≠ .RIGHT ∧ (Blitter.cropGeo lay).Off s scr.geo) →
          Blitter.crop (Blitter.crop lay scr) scr = Blitter.crop lay scr)) ∧
    ((Blitter.crop lay scr).hidden = false →
      (Blitter.crop lay scr).geo.x = lay.geo.x ∧ (Blitter.crop lay scr).geo.y = lay.geo.y) := by
  have hrows : b.Rows := Or.inl hty
  constructor
  · intro hhidden
    obtain ⟨s₀, hs₀⟩ :=
      (Geometry.outOf_iff _ _).1 ((Blitter.hidden_crop hb (Or.inl hty)).1 hhidden)
    obtain ⟨s, hs⟩ := Geometry.exists_firstOff hs₀
    refine ⟨⟨s₀, hs₀⟩, fun t ht => ?_, ?_⟩
    · rw [Blitter.blitGeo_crop hb hrows hs]
      exact (Geometry.off_clamp hs.1 t).2 ht
    · by_cases hr : (lay.rotating || lay.zooming) = true
      · obtain ⟨b', -, -, hcrop⟩ := Blitter.crop_firstOff hb hrows hs
        have hb' : (Blitter.crop lay scr).current_blit = some b' := by rw [hcrop]
        rw [Blitter.crop_crop_rotating hb hrows hs hr]
        refine ⟨hhidden, b', b'.scr_stride_sx, hb', ?_, fun _ => rfl⟩
        rw [hcrop]
      · obtain ⟨b', z, hb', htwice, hsame⟩ := Blitter.crop_crop_straight hb hrows hs hr
        refine ⟨by rw [htwice]; exact hhidden, b', z, hb', htwice, ?_⟩
        rintro (h | h | ⟨t, hright, ht⟩)
        · exact absurd (by simp [h]) hr
        · exact absurd (by simp [h]) hr
        · have hne : s ≠ .RIGHT := by
            rintro rfl
            obtain ⟨-, hbottom, hleft, hup⟩ := hs
            cases t with
            | BOTTOM => exact hbottom ht
            | LEFT => exact hleft ht
            | UP => exact hup ht
            | RIGHT => exact hright rfl
          rw [htwice, hsame hne, ← hb']
  · intro hshown
    have hin : ¬ (Blitter.cropGeo lay).OutOf scr.geo := fun hout => by
      simp [(Blitter.hidden_crop hb (Or.inl hty)).2 hout] at hshown
    obtain ⟨b', -, -, hcrop⟩ := Blitter.crop_in hb hrows hin
    rw [hcrop]
    by_cases hr : (lay.rotating || lay.zooming) = true
    · simp [Layer.setGeo, hr]
    · simp [Layer.setGeo, Blitter.cropGeo, hr]

/-- A layer of ten by ten pixels, a thousand pixels to the right, and a screen of a hundred
by a hundred: both crops clamp the layer, and they leave different blits. -/
theorem Blitter.crop_again_changes :
    let blit : Blit := ⟨.LINEAR, 0, 0, 0, 0, 0, 0, 0, 0, 0, 0, 0, 0, 0, ⟨0, 0, 0, 0⟩⟩
    let geo : Geometry := ⟨1000, 0, 10, 10, by decide, by decide, by decide, by decide⟩
    let lay : Layer Unit := ⟨(), geo, geo, false, false, false, true, some blit⟩
    let scr : ViewPort Unit :=
      ⟨(), 0, 0, 100, 100, by decide, by decide, by decide, by decide⟩
    (Blitter.crop lay scr).hidden = true ∧
      (Blitter.crop lay scr).current_blit.map Blit.scr_stride_sx = some 1000 ∧
      (Blitter.crop (Blitter.crop lay scr) scr).current_blit.map Blit.scr_stride_sx = some 101 ∧
      Blitter.crop (Blitter.crop lay scr) scr ≠ Blitter.crop lay scr := by
  intro blit geo lay scr
  have honce : (Blitter.crop lay scr).current_blit.map Blit.scr_stride_sx = some 1000 := rfl
  have htwice :
      (Blitter.crop (Blitter.crop lay scr) scr).current_blit.map Blit.scr_stride_sx = some 101 :=
    rfl
  refine ⟨rfl, honce, htwice, fun h => ?_⟩
  rw [h, honce] at htwice
  simp at htwice

/-- The same layer behind the left side, where the second crop changes nothing. -/
theorem Blitter.crop_again_left :
    let blit : Blit := ⟨.LINEAR, 0, 0, 0, 0, 0, 0, 0, 0, 0, 0, 0, 0, 0, ⟨0, 0, 0, 0⟩⟩
    let geo : Geometry := ⟨-1000, 0, 10, 10, by decide, by decide, by decide, by decide⟩
    let lay : Layer Unit := ⟨(), geo, geo, false, false, false, true, some blit⟩
    let scr : ViewPort Unit :=
      ⟨(), 0, 0, 100, 100, by decide, by decide, by decide, by decide⟩
    (Blitter.crop lay scr).blitGeo.x = -11 ∧ (Blitter.crop lay scr).blitGeo.Off .LEFT scr.geo ∧
      Blitter.crop (Blitter.crop lay scr) scr = Blitter.crop lay scr := by
  intro blit geo lay scr
  have hleft : (Blitter.cropGeo lay).Off .LEFT scr.geo := by
    change (-1000 : ℤ) + 10 < 0
    decide
  have hb : lay.current_blit = some blit := rfl
  have hhidden : (Blitter.crop lay scr).hidden = true := rfl
  obtain ⟨-, hoff, -, b', z, -, -, hsame⟩ := (Blitter.crop_again hb rfl).1 hhidden
  exact ⟨rfl, hoff .LEFT hleft, hsame (Or.inr (Or.inr ⟨.LEFT, by simp, hleft⟩))⟩

end FreeJ
