import FreeJ.Parameter

/-!
# The Readers of Parameters

`linear_blits.cpp` and `sdl_blits.cpp` give a number to some of their blits, as a parameter with a
multiplier; the blits and the listings of the console read it out of `value`. They read a `float`
where `Parameter::set` has stored a `double`.

The filter of `SDL_gfx` that a mask blit ends with and the blits of SDL get the number as a byte
or as an `unsigned int`; the conversion has no result where C leaves it undefined.

## Main results

* `blit_reads_iff`: a blit gets the number that was set if that is zero.
* `parameter_readers_iff`: the same, and for the number that the console shows.
-/

namespace FreeJ

open Float.Model (UnpackedFloat)

variable {type : ParameterType}

/-- A blit with a number: its name, and the name, description and multiplier of the parameter. -/
structure BlitParameter where
  blit : CString
  name : CString
  description : CString
  multiplier : ℕ

/-- The parameters of `setup_linear_blits`. -/
def linearBlitParameters : List BlitParameter :=
  let mk (blit name description : String) (multiplier : ℕ) : BlitParameter :=
    ⟨.ofString blit, .ofString name, .ofString description, multiplier⟩
  [mk "REDMASK" "bit threshold" "bitmask threshold to apply to the red channel" 255,
    mk "GREENMASK" "bit threshold" "bitmask threshold to apply to the green channel" 255,
    mk "BLUEMASK" "bit threshold" "bitmask threshold to apply to the blue channel" 255,
    mk "ADDB" "byte increment" "amount to sum to the byte" 255,
    mk "ADDBH" "half byte increment" "amount to sum to the half byte" 127,
    mk "SUBB" "byte decrement" "amount to substract to the pixel bytes" 255,
    mk "SHL" "byte decrement" "amount to substract to the pixel bytes" 255,
    mk "SHLB" "shift bits" "amount of left bit shifts to apply on each pixel's byte" 8,
    mk "SHR" "shift bits" "amount of right bit shifts to apply on each pixel's byte" 8,
    mk "MULB" "byte multiplier" "amount to multiply on each pixel's byte" 255,
    mk "BIN" "threshold" "binary threshold value" 255]

/-- The parameters of `setup_sdl_blits`. -/
def sdlBlitParameters : List BlitParameter :=
  let alpha (blit : String) : BlitParameter :=
    ⟨.ofString blit, .ofString "alpha",
      .ofString "level of transparency of alpha channel (0.0 - 1.0)", 255⟩
  [alpha "ALPHA", alpha "SRCALPHA"]

/-- A parameter that the setup of the blits has made, in whatever state it is. -/
def BlitParameter.Of (b : BlitParameter) (p : Parameter .NUMBER) : Prop :=
  p.name = b.name ∧ p.description = b.description ∧ p.multiplier = .ofNat b.multiplier

/-- `*(float*)(params->begin()->value)`, and what `console_param_completion` shows -/
def Parameter.asFloat (p : Parameter .NUMBER) : UnpackedFloat := p.value.loadFloat 0

/-- `(unsigned int)`, towards zero -/
def toUnsigned (u : UnpackedFloat) : Option ℕ :=
  u.number.bind fun q => if -1 < q ∧ q < 2 ^ 32 then some q.floor.toNat else none

/-- `unsigned char v = (unsigned int) *(float*)(params->begin()->value)` -/
def Parameter.byte (p : Parameter .NUMBER) : Option CHAR :=
  (toUnsigned p.asFloat).map fun v => BitVec.ofNat 8 v

/-- `red_mask`, `green_mask` and `blue_mask`, by the bitmask of the channel: the words that go
through the filter, and the threshold. -/
def channel_mask (bitmask : BitVec 32) (src dst : List (BitVec 32)) (p : Parameter .NUMBER) :
    List (BitVec 32) × Option CHAR :=
  (List.zipWith (fun d s => d ||| s &&& bitmask) dst src, p.byte)

/-- `red_mask` -/
def red_mask : List (BitVec 32) → List (BitVec 32) → Parameter .NUMBER →
    List (BitVec 32) × Option CHAR := channel_mask 0x00ff0000

/-- `green_mask` -/
def green_mask : List (BitVec 32) → List (BitVec 32) → Parameter .NUMBER →
    List (BitVec 32) × Option CHAR := channel_mask 0x0000ff00

/-- `blue_mask` -/
def blue_mask : List (BitVec 32) → List (BitVec 32) → Parameter .NUMBER →
    List (BitVec 32) × Option CHAR := channel_mask 0x000000ff

/-- `int_alpha` of `sdl_alpha` and `sdl_srcalpha` -/
def sdl_alpha (p : Parameter .NUMBER) : Option ℕ := toUnsigned p.asFloat

/-- The text in `value`. -/
def Parameter.asText (p : Parameter type) : CString := .read p.value 512 0

/-- What `console_param_completion` writes about a parameter. -/
def Parameter.listing {type : ParameterType} (p : Parameter type) : Message :=
  let text (s : String) : CString := .ofString s
  .act <| match type, p with
    | .BOOL, p => text "(bool) " ++ p.name ++ text " = " ++
        text (if p.value.cell 0 = 1 then "true" else "false") ++ text " ::  " ++ p.description
    | .NUMBER, p => text "(number) " ++ p.name ++ text " = " ++ fixed2 p.asFloat ++
        text " :: " ++ p.description
    | .STRING, p => text "(string) " ++ p.name ++ text " = " ++ p.asText ++ text " :: " ++
        p.description
    | .POSITION, p => text "(position) " ++ p.name ++ text " = " ++
        fixed2 (p.value.loadFloat 0) ++ text " x " ++ fixed2 (p.value.loadFloat 4) ++
        text " :: " ++ p.description
    | .COLOR, p => p.name ++ text " (color) " ++ p.description

/-! ### The number that is read -/

variable {p : Parameter .NUMBER} {u : UnpackedFloat} {v : Float.Model} {b : BlitParameter}

/-- The readers get a number: as it is, as a byte and as a level of transparency. -/
structure Parameter.Reads (p : Parameter .NUMBER) (u : UnpackedFloat) : Prop where
  number : p.asFloat.SameNumber u
  byte : p.byte = (toUnsigned u).map fun v => BitVec.ofNat 8 v
  alpha : sdl_alpha p = toUnsigned u

theorem Parameter.reads_iff : p.Reads u ↔ p.asFloat.SameNumber u := by
  refine ⟨Reads.number, fun h => ?_⟩
  have hunsigned : toUnsigned p.asFloat = toUnsigned u := by rw [toUnsigned, toUnsigned, h.2]
  exact ⟨h, by rw [Parameter.byte, hunsigned], hunsigned⟩

/-- **What is stored is read** if it is zero. -/
theorem Parameter.reads_stored_iff (p : Parameter .NUMBER) :
    p.Reads (p.value.loadDouble 0) ↔ (p.value.loadDouble 0).number = some 0 :=
  reads_iff.trans (p.value.sameNumber_iff 0)

/-- What `set` leaves in `value`. -/
theorem Parameter.loadDouble_set (h0 : .ofNat 0 ≤ v) (h1 : v ≤ .ofNat 1) :
    (p.set v).2.1.value.loadDouble 0 = (p.scale v).unpack := by
  rw [Parameter.set_of_accepted (Parameter.set_number h0 h1)]
  exact Cells.loadDouble_of_holds Parameter.store_holds

/-- The multipliers are not one, nor less. -/
theorem BlitParameter.multiplier_spec (hb : b ∈ linearBlitParameters ++ sdlBlitParameters) :
    ((Float32.Model.ofNat b.multiplier).toDouble != .ofNat 1) = true ∧
      (Float32.Model.ofNat b.multiplier).toDouble.unpack.number = some (b.multiplier : ℚ) ∧
        1 ≤ b.multiplier := by
  revert b
  decide +kernel

/-- **When a blit gets the number that was set**: only if that is zero. -/
theorem blit_reads_iff (hb : b ∈ linearBlitParameters ++ sdlBlitParameters) (hp : b.Of p)
    (h0 : .ofNat 0 ≤ v) (h1 : v ≤ .ofNat 1) :
    (p.set v).2.1.Reads (v * p.multiplier.toDouble).unpack ↔ v.unpack.number = some 0 := by
  obtain ⟨hne, hnumber, hone⟩ := b.multiplier_spec hb
  rw [← hp.2.2] at hne hnumber
  have hload := Parameter.loadDouble_set (p := p) h0 h1
  rw [Parameter.scale, if_pos hne] at hload
  rw [← hload, Parameter.reads_stored_iff, hload]
  constructor
  · intro hzero
    by_contra hv
    have habs : (1 : ℚ) ≤ |(b.multiplier : ℚ)| := by
      rw [Nat.abs_cast]
      exact_mod_cast hone
    exact Float.Model.number_mul_ne_zero hv hnumber habs hzero
  · exact fun hv => Float.Model.number_zero_mul hv hnumber

/-- **When the readers decode what was stored**: a blit gets the number that was set if that is
zero, and the console shows the number that is stored if that is zero. -/
theorem parameter_readers_iff (hb : b ∈ linearBlitParameters ++ sdlBlitParameters) (hp : b.Of p)
    (h0 : .ofNat 0 ≤ v) (h1 : v ≤ .ofNat 1) (shown : Parameter .NUMBER) :
    ((p.set v).2.1.Reads (v * p.multiplier.toDouble).unpack ↔ v.unpack.number = some 0) ∧
      (shown.asFloat.SameNumber (shown.value.loadDouble 0) ↔
        (shown.value.loadDouble 0).number = some 0) :=
  ⟨blit_reads_iff hb hp h0 h1, shown.value.sameNumber_iff 0⟩

/-- The parameter as the setup of the blits leaves it. -/
def BlitParameter.parameter (b : BlitParameter) : Parameter .NUMBER :=
  { Parameter.new .NUMBER fun _ => 0 with
    name := b.name, description := b.description, multiplier := .ofNat b.multiplier }

/-- The threshold of the red mask. -/
def redThreshold : BlitParameter where
  blit := .ofString "REDMASK"
  name := .ofString "bit threshold"
  description := .ofString "bitmask threshold to apply to the red channel"
  multiplier := 255

/-- A threshold of zero is read. -/
theorem parameter_readers_iff_zero :
    (redThreshold.parameter.set (.ofNat 0 : Float.Model)).2.1.Reads
      ((.ofNat 0 : Float.Model) * redThreshold.parameter.multiplier.toDouble).unpack :=
  (parameter_readers_iff (b := redThreshold) (p := redThreshold.parameter)
    (List.mem_append_left _ List.mem_cons_self) ⟨rfl, rfl, rfl⟩ (by decide) (by decide)
    redThreshold.parameter).1.mpr (by decide +kernel)

/-- `0.5` -/
def half : Float.Model := .pack (.round .binary64 .positive 1 (-1))

/-- **A half is read as zero.** The bytes of `127.5` start with four zeros. -/
theorem half_reads_zero :
    (redThreshold.parameter.set half).2.1.byte = some 0 ∧
      ¬ (redThreshold.parameter.set half).2.1.Reads
        (half * redThreshold.parameter.multiplier.toDouble).unpack := by
  refine ⟨by decide +kernel, ?_⟩
  rw [blit_reads_iff (b := redThreshold) (List.mem_append_left _ List.mem_cons_self)
    ⟨rfl, rfl, rfl⟩ (by decide) (by decide)]
  decide +kernel

end FreeJ
