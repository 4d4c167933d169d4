import FreeJ.Combining
import FreeJ.MachineInt
import FreeJ.Mmx

/-!
# The Image Filters

The filters of `SDL_imageFilter.c` that the linear blits call. Each is written twice: in
assembler for blocks of eight bytes, and in C for the bytes that are left or, where there is no
MMX, for all of them. The registers are those of `Mmx`; a loop over a row is one of
`Combining`. Apart from the shifts, which check their number, and the division, all of them
return 0.

## Main results

* `imageFilter_combines`: a filter whose two routines agree on a byte does the same on a row,
  whichever of them it takes.
* `SDL_imageFilterMultByByte_apply`, `SDL_imageFilterMultByByte_wraps`,
  `SDL_imageFilterShiftLeft_apply`, `SDL_imageFilterShiftLeft_wraps`: the two filters whose
  assembler looks into the address of the row instead of its number.
* `SDL_imageFilterMultNor_apply`: what the product without saturation does twice.
-/

namespace FreeJ

open Function (update)

open Mmx

/-- How the filters were built, and the machine they run on. -/
structure Cpu where
  /-- `USE_MMX` is defined -/
  USE_MMX : Bool
  /-- `SDL_imageFilterUseMMX`, which `SDL_imageFilterMMXoff` resets -/
  SDL_imageFilterUseMMX : Bool
  /-- bit 23 of what `cpuid` returns -/
  mmx_bit : Bool

/-- `SDL_imageFilterMMXdetect` -/
def SDL_imageFilterMMXdetect (cpu : Cpu) : Bool :=
  if cpu.SDL_imageFilterUseMMX then cpu.USE_MMX && cpu.mmx_bit else false

/-- `SDL_imageFilterMMXoff` -/
def SDL_imageFilterMMXoff (cpu : Cpu) : Cpu := { cpu with SDL_imageFilterUseMMX := false }

/-- `(unsigned char) result` -/
def unsigned_char (result : ℤ) : CHAR := BitVec.ofInt 8 result

/-- `if (result > 255) result = 255;` -/
def saturation255 (result : ℤ) : ℤ := if result > 255 then 255 else result

/-- `if (result < 0) result = 0;` -/
def saturation0 (result : ℤ) : ℤ := if result < 0 then 0 else result

/-- One byte of the C routine. -/
def byteStep (op : CHAR → CHAR → CHAR) : Combiner CHAR := fun cursrc1 cursrc2 curdst m =>
  update m curdst (op (m cursrc1) (m cursrc2))

/-- Eight bytes of the assembler. -/
def mmxStep (mmx : Mmx → Mmx → Mmx) : Combiner CHAR := fun eax ebx edi m =>
  storeBlock m edi (mmx (loadBlock 8 m eax) (loadBlock 8 m ebx))

/-- What the filters with an assembler routine have in common. -/
def imageFilter (detect : Bool) (mmx : Mmx → Mmx → Mmx) (op : CHAR → CHAR → CHAR) (length : ℤ) :
    Combiner CHAR :=
  if detect = true ∧ 7 < length then
    -- counter/8 (MMX loads 8 bytes at a time)
    let blocks := strides 8 (mmxStep mmx) (length / 8).toNat
    -- Check for unaligned bytes
    if 0 < length % 8 then
      andThen (8 * (length / 8).toNat) blocks (strides 1 (byteStep op) (length % 8).toNat)
    else blocks
  else strides 1 (byteStep op) (uint32 length).toNat

/-! ### Filters of two sources -/

section TwoSources

variable (cpu : Cpu) (length : ℤ)

/-- `SDL_imageFilterAdd` -/
def SDL_imageFilterAdd : Combiner CHAR :=
  imageFilter (SDL_imageFilterMMXdetect cpu) paddusb
    (fun x y => unsigned_char (saturation255 (x.toNat + y.toNat))) length

/-- `SDL_imageFilterMean` -/
def SDL_imageFilterMean : Combiner CHAR :=
  imageFilter (SDL_imageFilterMMXdetect cpu)
    (fun mm1 mm2 => paddusb (pand (psrlw mm1 1) (splat 0x7f)) (pand (psrlw mm2 1) (splat 0x7f)))
    (fun x y => unsigned_char (x.toNat / 2 + y.toNat / 2)) length

/-- `SDL_imageFilterSub` -/
def SDL_imageFilterSub : Combiner CHAR :=
  imageFilter (SDL_imageFilterMMXdetect cpu) psubusb
    (fun x y => unsigned_char (saturation0 (x.toNat - y.toNat))) length

/-- `SDL_imageFilterAbsDiff` -/
def SDL_imageFilterAbsDiff : Combiner CHAR :=
  imageFilter (SDL_imageFilterMMXdetect cpu)
    (fun mm1 mm2 => por (psubusb mm1 mm2) (psubusb mm2 mm1))
    (fun x y => unsigned_char |(x.toNat : ℤ) - y.toNat|) length

/-- `SDL_imageFilterMult` -/
def SDL_imageFilterMult : Combiner CHAR :=
  imageFilter (SDL_imageFilterMMXdetect cpu)
    (fun mm1 mm3 =>
      packuswb (absWords (pmullw (punpcklbw mm1 (splat 0)) (punpcklbw mm3 (splat 0))))
        (absWords (pmullw (punpckhbw mm1 (splat 0)) (punpckhbw mm3 (splat 0)))))
    (fun x y => unsigned_char (saturation255 (x.toNat * y.toNat))) length

/-- `SDL_imageFilterMultDivby2` -/
def SDL_imageFilterMultDivby2 : Combiner CHAR :=
  imageFilter (SDL_imageFilterMMXdetect cpu)
    (fun mm1 mm3 =>
      packuswb (pmullw (psrlw (punpcklbw mm1 (splat 0)) 1) (punpcklbw mm3 (splat 0)))
        (pmullw (psrlw (punpckhbw mm1 (splat 0)) 1) (punpckhbw mm3 (splat 0))))
    (fun x y => unsigned_char (saturation255 (x.toNat / 2 * y.toNat))) length

/-- `SDL_imageFilterBitAnd` -/
def SDL_imageFilterBitAnd : Combiner CHAR :=
  imageFilter (SDL_imageFilterMMXdetect cpu) pand (fun x y => x &&& y) length

/-- `SDL_imageFilterBitOr` -/
def SDL_imageFilterBitOr : Combiner CHAR :=
  imageFilter (SDL_imageFilterMMXdetect cpu) por (fun x y => x ||| y) length

/-- The low byte of the product, which `SDL_imageFilterMultNor` keeps. -/
def multNor (x y : CHAR) : CHAR := unsigned_char (x.toNat * y.toNat)

/-- The assembler routines for single bytes, which are there with `USE_MMX` and do not need MMX. -/
def byteASM (op : CHAR → CHAR → CHAR) : Combiner CHAR :=
  if cpu.USE_MMX then strides 1 (byteStep op) length.toNat else fun _ _ _ m => m

/-- `SDL_imageFilterMultNorASM` -/
def SDL_imageFilterMultNorASM : Combiner CHAR := byteASM cpu length multNor

/-- `SDL_imageFilterMultNor` -/
def SDL_imageFilterMultNor : Combiner CHAR := fun Src1 Src2 Dest m =>
  if 0 < length then
    let m := SDL_imageFilterMultNorASM cpu length Src1 Src2 Dest m
    -- Check for unaligned bytes
    if 0 < length % 8 then
      let istart := length / 8 * 8
      strides 1 (byteStep multNor) (length % 8).toNat (Src1 + istart) (Src2 + istart)
        (Dest + istart) m
    else m
  else m

/-- One byte of `SDL_imageFilterDivASM`: division by zero = 255 !!! -/
def divByte (x y : CHAR) : CHAR := if y = 0 then 255 else x / y

/-- `SDL_imageFilterDivASM` -/
def SDL_imageFilterDivASM : Combiner CHAR := byteASM cpu length divByte

/-- `SDL_imageFilterDiv`: what it returns, and the memory. -/
def SDL_imageFilterDiv (Src1 Src2 Dest : ℤ) (m : ℤ → CHAR) : ℤ × (ℤ → CHAR) :=
  if 0 < length then (0, SDL_imageFilterDivASM cpu length Src1 Src2 Dest m) else (-1, m)

end TwoSources

/-! ### Filters of one source -/

section OneSource

variable (cpu : Cpu) (length : ℤ)

/-- A filter that does not read a second source. -/
def oneSource (f : Combiner CHAR) (Src1 Dest : ℤ) (m : ℤ → CHAR) : ℤ → CHAR := f Src1 Dest Dest m

/-- `SDL_imageFilterBitNegation` -/
def SDL_imageFilterBitNegation : ℤ → ℤ → (ℤ → CHAR) → ℤ → CHAR :=
  oneSource <| imageFilter (SDL_imageFilterMMXdetect cpu)
    -- a register that is compared with itself is all 1's
    (fun mm0 mm1 => pxor mm0 (pcmpeqb mm1 mm1)) (fun x _ => ~~~x) length

/-- `SDL_imageFilterAddByte` -/
def SDL_imageFilterAddByte (C : CHAR) : ℤ → ℤ → (ℤ → CHAR) → ℤ → CHAR :=
  oneSource <| imageFilter (SDL_imageFilterMMXdetect cpu)
    (fun mm0 _ => paddusb mm0 (splat C))
    (fun x _ => unsigned_char (saturation255 (x.toNat + C.toNat))) length

/-- `SDL_imageFilterAddByteToHalf` -/
def SDL_imageFilterAddByteToHalf (C : CHAR) : ℤ → ℤ → (ℤ → CHAR) → ℤ → CHAR :=
  oneSource <| imageFilter (SDL_imageFilterMMXdetect cpu)
    (fun mm2 _ => paddusb (pand (psrlw mm2 1) (splat 0x7f)) (splat C))
    (fun x _ => unsigned_char (saturation255 (x.toNat / 2 + C.toNat))) length

/-- `SDL_imageFilterSubByte` -/
def SDL_imageFilterSubByte (C : CHAR) : ℤ → ℤ → (ℤ → CHAR) → ℤ → CHAR :=
  oneSource <| imageFilter (SDL_imageFilterMMXdetect cpu)
    (fun mm0 _ => psubusb mm0 (splat C))
    (fun x _ => unsigned_char (saturation0 (x.toNat - C.toNat))) length

/-- The loop of the shifts that prepares a mask for the bytes: `n` times a shift of the words
by one and the mask for that. -/
def prepareMask (shift : Mmx → ℕ → Mmx) (Mask : CHAR) : ℕ → Mmx → Mmx
  | 0, mm1 => mm1
  | n + 1, mm1 => prepareMask shift Mask n (pand (shift mm1 1) (splat Mask))

/-- What the shifts have in common: they check their number. -/
def checkShift (N : CHAR) (f : Combiner CHAR) (Src1 Dest : ℤ) (m : ℤ → CHAR) : ℤ × (ℤ → CHAR) :=
  if N.toNat > 8 ∨ N.toNat < 1 then (-1, m) else (0, oneSource f Src1 Dest m)

/-- `SDL_imageFilterShiftRight` -/
def SDL_imageFilterShiftRight (N : CHAR) : ℤ → ℤ → (ℤ → CHAR) → ℤ × (ℤ → CHAR) :=
  checkShift N <| imageFilter (SDL_imageFilterMMXdetect cpu)
    (fun mm0 mm1 =>
      pand (psrlw mm0 N.toNat) (prepareMask psrlw 0x7f N.toNat (pcmpeqb mm1 mm1)))
    (fun x _ => x >>> N.toNat) length

/-- `SDL_imageFilterShiftLeftByte` -/
def SDL_imageFilterShiftLeftByte (N : CHAR) : ℤ → ℤ → (ℤ → CHAR) → ℤ × (ℤ → CHAR) :=
  checkShift N <| imageFilter (SDL_imageFilterMMXdetect cpu)
    (fun mm0 mm1 =>
      pand (psllw mm0 N.toNat) (prepareMask psllw 0xfe N.toNat (pcmpeqb mm1 mm1)))
    (fun x _ => unsigned_char ((x.toNat * 2 ^ N.toNat) % 2 ^ 8)) length

/-- `%al`, into which the low byte of the address `Src1` was loaded, as a signed byte. -/
def al (Src1 : ℤ) : ℤ := (BitVec.ofInt 8 Src1).toInt

/-- `SDL_imageFilterShiftLeft`. The assembler compares `%al` with 7 to take the faster loop. -/
def SDL_imageFilterShiftLeft (N : CHAR) (Src1 : ℤ) : ℤ → (ℤ → CHAR) → ℤ × (ℤ → CHAR) :=
  let shifted (half : Mmx → Mmx → Mmx) (mm3 : Mmx) := psllw (half mm3 (splat 0)) N.toNat
  checkShift N (imageFilter (SDL_imageFilterMMXdetect cpu)
    (fun mm3 _ =>
      if al Src1 > 7 then
        packuswb (absWords (shifted punpcklbw mm3)) (absWords (shifted punpckhbw mm3))
      else packuswb (shifted punpcklbw mm3) (shifted punpckhbw mm3))
    (fun x _ => unsigned_char (saturation255 (x.toNat * 2 ^ N.toNat))) length) Src1

/-- `SDL_imageFilterMultByByte`. The assembler compares `%al` with the signed byte 128, which is
-128, to take the faster loop. -/
def SDL_imageFilterMultByByte (C : CHAR) (Src1 : ℤ) : ℤ → (ℤ → CHAR) → ℤ → CHAR :=
  let product (half : Mmx → Mmx → Mmx) (mm3 : Mmx) :=
    pmullw (half mm3 (splat 0)) (splatWord (C.setWidth 16))
  oneSource (imageFilter (SDL_imageFilterMMXdetect cpu)
    (fun mm3 _ =>
      if al Src1 > -128 then
        packuswb (absWords (product punpcklbw mm3)) (absWords (product punpckhbw mm3))
      else packuswb (product punpcklbw mm3) (product punpckhbw mm3))
    (fun x _ => unsigned_char (saturation255 (x.toNat * C.toNat))) length) Src1

/-- `SDL_imageFilterBinarizeUsingThreshold` -/
def SDL_imageFilterBinarizeUsingThreshold (T : CHAR) : ℤ → ℤ → (ℤ → CHAR) → ℤ → CHAR :=
  oneSource <| imageFilter (SDL_imageFilterMMXdetect cpu)
    (fun mm0 mm1 =>
      let mm2 := psubusb (pcmpeqb mm1 mm1) (splat T) -- store 0xFF - T in MM2
      pcmpeqb (paddusb mm0 mm2) (pcmpeqb mm1 mm1))
    (fun x _ => if x.toNat ≥ T.toNat then 255 else 0) length

end OneSource

/-! ### The two routines -/

variable {detect : Bool} {mmx : Mmx → Mmx → Mmx} {op : CHAR → CHAR → CHAR} {length : ℤ}

/-- The C routine over `n` bytes. -/
theorem byteStep_combines (op : CHAR → CHAR → CHAR) (n : ℕ) :
    Combines n (fun _ => op) (strides 1 (byteStep op) n) := by
  have h := (Combines.update op).strides n
  rw [Nat.one_mul] at h
  exact h

/-- **With MMX** the bytes of whole blocks go through the assembler and the rest through the C
routine. -/
theorem imageFilter_mmx (bop op : CHAR → CHAR → CHAR) (h : detect = true ∧ 7 < length)
    (hmmx : ∀ x y i, mmx x y i = bop (x i) (y i)) :
    Combines length.toNat (fun i => if i < length / 8 * 8 then bop else op)
      (imageFilter detect mmx op length) := by
  have hstep : Combines 8 (fun _ => bop) (mmxStep mmx) := Combines.storeBlock hmmx
  have hblocks := hstep.strides (length / 8).toNat
  simp only [imageFilter, if_pos h]
  split
  next hrest =>
    have hlen : length.toNat = 8 * (length / 8).toNat + (length % 8).toNat := by omega
    rw [hlen]
    refine (hblocks.append (byteStep_combines op _)).congr fun i x y _ _ => ?_
    simp only [show (i < (8 * (length / 8).toNat : ℕ)) ↔ i < length / 8 * 8 by omega]
  next hrest =>
    have hlen : length.toNat = 8 * (length / 8).toNat := by omega
    rw [hlen]
    exact hblocks.congr fun i x y _ hi => by rw [if_pos (by omega)]

/-- **A filter whose two routines agree** on each byte does the same on a row, with MMX and
without. -/
theorem imageFilter_combines (op : CHAR → CHAR → CHAR)
    (hmmx : detect = true ∧ 7 < length → ∀ x y i, mmx x y i = op (x i) (y i))
    (h0 : 0 ≤ length) (h31 : length < 2 ^ 31) :
    Combines length.toNat (fun _ => op) (imageFilter detect mmx op length) := by
  by_cases h : detect = true ∧ 7 < length
  · exact (imageFilter_mmx op op h (hmmx h)).congr fun i x y _ _ => by split <;> rfl
  · rw [imageFilter, if_neg h, uint32_eq h0 (by omega)]
    exact byteStep_combines op _

/-! ### Bytes -/

theorem unsigned_char_natCast (n : ℕ) : unsigned_char n = BitVec.ofNat 8 n := by
  rw [unsigned_char, BitVec.ofInt_natCast]

theorem saturation255_natCast (n : ℕ) : saturation255 n = (min 255 n : ℕ) := by
  rw [saturation255]
  split <;> omega

theorem saturation0_sub (m n : ℕ) : saturation0 (m - n) = (m - n : ℕ) := by
  rw [saturation0]
  split <;> omega

/-- A saturated sum. -/
theorem addus_eq (x y : CHAR) :
    addus x y = unsigned_char (saturation255 (x.toNat + y.toNat)) := by
  rw [← Nat.cast_add, saturation255_natCast, unsigned_char_natCast, addus]

/-- A saturated difference. -/
theorem subus_eq (x y : CHAR) : subus x y = unsigned_char (saturation0 (x.toNat - y.toNat)) := by
  rw [saturation0_sub, unsigned_char_natCast, subus]

/-- A word with a number that is not negative is saturated as such. -/
theorem packus_eq {w : BitVec 16} {n : ℕ} (hw : w.toNat = n) (hn : n < 2 ^ 15) :
    packus w = unsigned_char (saturation255 n) := by
  rw [packus_of_lt (hw ▸ hn), hw, saturation255_natCast, unsigned_char_natCast]

/-- **The absolute value** of a word saturates as the number itself does, as long as the number
is no more than the square of a byte. -/
theorem packus_absWord {w : BitVec 16} {n : ℕ} (hw : w.toNat = n) (hn : n ≤ 2 ^ 16 - 2 ^ 8) :
    packus (absWord w) = unsigned_char (saturation255 n) := by
  by_cases h : n < 2 ^ 15
  · rw [absWord_of_lt (hw ▸ h), packus_eq hw h]
  · have habs := absWord_of_le (v := w) (by omega)
    have hmin : min 255 (absWord w).toNat = min 255 n := by omega
    rw [packus_of_lt (by omega), hmin, saturation255_natCast, unsigned_char_natCast]

/-- The product of two bytes as words. -/
theorem toNat_product (x y : CHAR) :
    (x.setWidth 16 * y.setWidth 16 : BitVec 16).toNat = x.toNat * y.toNat ∧
      x.toNat * y.toNat ≤ 255 * 255 := by
  have hle : x.toNat * y.toNat ≤ 255 * 255 :=
    Nat.mul_le_mul (Nat.le_of_lt_succ x.isLt) (Nat.le_of_lt_succ y.isLt)
  rw [BitVec.toNat_mul, BitVec.toNat_setWidth, BitVec.toNat_setWidth,
    Nat.mod_eq_of_lt (Nat.lt_of_lt_of_le x.isLt (by omega)),
    Nat.mod_eq_of_lt (Nat.lt_of_lt_of_le y.isLt (by omega)), Nat.mod_eq_of_lt (by omega)]
  exact ⟨rfl, hle⟩

/-- Half of a byte. -/
theorem toNat_half (x : CHAR) : (x >>> 1).toNat = x.toNat / 2 := by
  rw [BitVec.toNat_ushiftRight, Nat.shiftRight_eq_div_pow, Nat.pow_one]

/-- The words are shifted and masked for half of each byte. -/
theorem half_bytes (x : Mmx) (i : Fin 8) :
    pand (psrlw x 1) (splat 0x7f) i = x i >>> 1 := psrlw_pand x 1 i

/-- All ones. -/
theorem pcmpeqb_self (x : Mmx) : pcmpeqb x x = splat 0xff := by
  funext i
  simp [pcmpeqb]

/-- **The prepared mask** of a shift. -/
theorem prepareMask_eq (shift : Mmx → ℕ → Mmx) (Mask : CHAR) (f : CHAR → ℕ → CHAR)
    (hf0 : ∀ x, f x 0 = x) (hfs : ∀ x n, f (f x 1) n = f x (n + 1))
    (hshift : ∀ x i, pand (shift x 1) (splat Mask) i = f (x i) 1) (n : ℕ) (c : CHAR) :
    prepareMask shift Mask n (splat c) = splat (f c n) := by
  induction n generalizing c with
  | zero => rw [prepareMask, hf0]
  | succ n ih =>
      have hstep : pand (shift (splat c) 1) (splat Mask) = splat (f c 1) :=
        funext fun i => hshift (splat c) i
      rw [prepareMask, hstep, ih, hfs]

/-! ### The filters on a row -/

section Rows

variable (cpu : Cpu) (h0 : 0 ≤ length) (h31 : length < 2 ^ 31)

include h0 h31

theorem SDL_imageFilterAdd_combines :
    Combines length.toNat (fun _ x y => unsigned_char (saturation255 (x.toNat + y.toNat)))
      (SDL_imageFilterAdd cpu length) :=
  imageFilter_combines _ (fun _ x y i => addus_eq (x i) (y i)) h0 h31

theorem SDL_imageFilterMean_combines :
    Combines length.toNat (fun _ x y => unsigned_char (x.toNat / 2 + y.toNat / 2))
      (SDL_imageFilterMean cpu length) := by
  refine imageFilter_combines _ (fun _ x y i => ?_) h0 h31
  have hx := (x i).isLt
  have hy := (y i).isLt
  rw [paddusb, bytewise_apply, half_bytes, half_bytes, addus, toNat_half, toNat_half,
    Nat.min_eq_right (by omega), ← unsigned_char_natCast]
  push_cast
  rfl

theorem SDL_imageFilterSub_combines :
    Combines length.toNat (fun _ x y => unsigned_char (saturation0 (x.toNat - y.toNat)))
      (SDL_imageFilterSub cpu length) :=
  imageFilter_combines _ (fun _ x y i => subus_eq (x i) (y i)) h0 h31

/-- One of the two differences is zero. -/
theorem SDL_imageFilterAbsDiff_combines :
    Combines length.toNat (fun _ x y => unsigned_char |(x.toNat : ℤ) - y.toNat|)
      (SDL_imageFilterAbsDiff cpu length) := by
  refine imageFilter_combines _ (fun _ x y i => ?_) h0 h31
  simp only [por, psubusb, bytewise_apply, subus]
  rcases Nat.le_total (x i).toNat (y i).toNat with h | h
  · have habs : |((x i).toNat : ℤ) - (y i).toNat| = ((y i).toNat - (x i).toNat : ℕ) := by
      rw [abs_of_nonpos (by omega)]
      omega
    rw [habs, Nat.sub_eq_zero_of_le h, unsigned_char_natCast]
    exact BitVec.zero_or
  · have habs : |((x i).toNat : ℤ) - (y i).toNat| = ((x i).toNat - (y i).toNat : ℕ) := by
      rw [abs_of_nonneg (by omega)]
      omega
    rw [habs, Nat.sub_eq_zero_of_le h, unsigned_char_natCast]
    exact BitVec.or_zero

theorem SDL_imageFilterMult_combines :
    Combines length.toNat (fun _ x y => unsigned_char (saturation255 (x.toNat * y.toNat)))
      (SDL_imageFilterMult cpu length) := by
  refine imageFilter_combines _ (fun _ x y i => ?_) h0 h31
  have hwords (a b : Mmx) (k : Fin 4) :
      words (absWords (pmullw a b)) k = absWord (words a k * words b k) := by
    rw [words_absWords, pmullw, words_wordwise]
  obtain ⟨hprod, hle⟩ := toNat_product (x i) (y i)
  refine (unpacked_pack (F := fun a b => absWords (pmullw a b)) (f := fun v w => absWord (v * w))
    hwords x y i).trans ?_
  rw [packus_absWord hprod (by omega), Nat.cast_mul]

theorem SDL_imageFilterMultDivby2_combines :
    Combines length.toNat (fun _ x y => unsigned_char (saturation255 (x.toNat / 2 * y.toNat)))
      (SDL_imageFilterMultDivby2 cpu length) := by
  refine imageFilter_combines _ (fun _ x y i => ?_) h0 h31
  have hwords (a b : Mmx) (k : Fin 4) :
      words (pmullw (psrlw a 1) b) k = words a k >>> 1 * words b k := by
    rw [pmullw, words_wordwise, psrlw, words_ofWords]
  have hhalf : (x i).setWidth 16 >>> 1 = ((x i) >>> 1).setWidth 16 :=
    BitVec.eq_of_toNat_eq (by simp [BitVec.toNat_ushiftRight])
  obtain ⟨hprod, -⟩ := toNat_product (x i >>> 1) (y i)
  have hle : (x i >>> 1).toNat * (y i).toNat ≤ 127 * 255 := by
    have hx := (x i).isLt
    have hy := (y i).isLt
    exact Nat.mul_le_mul (by rw [toNat_half]; omega) (by omega)
  refine (unpacked_pack (F := fun a b => pmullw (psrlw a 1) b) (f := fun v w => v >>> 1 * w)
    hwords x y i).trans ?_
  rw [hhalf, packus_eq hprod (by omega), toNat_half]
  push_cast
  rfl

theorem SDL_imageFilterBitAnd_combines :
    Combines length.toNat (fun _ x y => x &&& y) (SDL_imageFilterBitAnd cpu length) :=
  imageFilter_combines _ (fun _ _ _ _ => rfl) h0 h31

theorem SDL_imageFilterBitOr_combines :
    Combines length.toNat (fun _ x y => x ||| y) (SDL_imageFilterBitOr cpu length) :=
  imageFilter_combines _ (fun _ _ _ _ => rfl) h0 h31

end Rows

/-! ### Filters of one source on a row -/

/-- What a filter does with the bytes of its destination, where it does not return early. -/
def Blends (n : ℕ) (op : ℤ → CHAR → CHAR → CHAR) (f : ℤ → ℤ → (ℤ → CHAR) → ℤ → CHAR) : Prop :=
  ∀ s d m, Clear s d n → ∀ a,
    f s d m a = if d ≤ a ∧ a < d + n then op (a - d) (m (s + (a - d))) (m a) else m a

variable {n : ℕ} {f g : Combiner CHAR} {bop bop' : ℤ → CHAR → CHAR → CHAR}

/-- A pass whose second source is the destination. -/
theorem Combines.oneSource (hf : Combines n bop f) : Blends n bop (oneSource f) := by
  intro s d m h a
  rw [FreeJ.oneSource, hf s d d m h (Clear.self d n), add_sub_cancel]

/-- A shift whose number is in range. -/
theorem checkShift_eq {N : CHAR} (h1 : 1 ≤ N.toNat) (h8 : N.toNat ≤ 8) (f : Combiner CHAR) (s d : ℤ)
    (m : ℤ → CHAR) : checkShift N f s d m = (0, oneSource f s d m) :=
  if_neg (by omega)

section Rows

variable (cpu : Cpu) (h0 : 0 ≤ length) (h31 : length < 2 ^ 31)

include h0 h31

/-- A filter of one source whose two routines agree. -/
theorem imageFilter_blends (op : CHAR → CHAR) (hmmx : ∀ x y i, mmx x y i = op (x i)) :
    Blends length.toNat (fun _ x _ => op x) (oneSource
      (imageFilter (SDL_imageFilterMMXdetect cpu) mmx (fun x _ => op x) length)) :=
  (imageFilter_combines _ (fun _ => hmmx) h0 h31).oneSource

theorem SDL_imageFilterBitNegation_blends :
    Blends length.toNat (fun _ x _ => ~~~x) (SDL_imageFilterBitNegation cpu length) := by
  refine imageFilter_blends cpu h0 h31 (fun x => ~~~x) fun x y i => ?_
  rw [pcmpeqb_self, pxor, bytewise_apply, splat_apply]
  exact BitVec.xor_allOnes

theorem SDL_imageFilterAddByte_blends (C : CHAR) :
    Blends length.toNat (fun _ x _ => unsigned_char (saturation255 (x.toNat + C.toNat)))
      (SDL_imageFilterAddByte cpu length C) :=
  imageFilter_blends cpu h0 h31 (fun x => unsigned_char (saturation255 (x.toNat + C.toNat)))
    fun x _ i => addus_eq (x i) C

theorem SDL_imageFilterAddByteToHalf_blends (C : CHAR) :
    Blends length.toNat (fun _ x _ => unsigned_char (saturation255 (x.toNat / 2 + C.toNat)))
      (SDL_imageFilterAddByteToHalf cpu length C) := by
  refine imageFilter_blends cpu h0 h31
    (fun x => unsigned_char (saturation255 (x.toNat / 2 + C.toNat))) fun x y i => ?_
  rw [paddusb, bytewise_apply, half_bytes, splat_apply, addus_eq, toNat_half]
  push_cast
  rfl

theorem SDL_imageFilterSubByte_blends (C : CHAR) :
    Blends length.toNat (fun _ x _ => unsigned_char (saturation0 (x.toNat - C.toNat)))
      (SDL_imageFilterSubByte cpu length C) :=
  imageFilter_blends cpu h0 h31 (fun x => unsigned_char (saturation0 (x.toNat - C.toNat)))
    fun x _ i => subus_eq (x i) C

theorem SDL_imageFilterBinarizeUsingThreshold_blends (T : CHAR) :
    Blends length.toNat (fun _ x _ => if x.toNat ≥ T.toNat then 255 else 0)
      (SDL_imageFilterBinarizeUsingThreshold cpu length T) := by
  refine imageFilter_blends cpu h0 h31 (fun x => if x.toNat ≥ T.toNat then 255 else 0)
    fun x y i => ?_
  have hx := (x i).isLt
  have hT := T.isLt
  have hff : (0xff : CHAR).toNat = 255 := rfl
  have hmm2 : (subus 0xff T).toNat = 255 - T.toNat := by
    rw [subus, hff, BitVec.toNat_ofNat, Nat.mod_eq_of_lt (by omega)]
  have hsum : (addus (x i) (subus 0xff T)).toNat = min 255 ((x i).toNat + (255 - T.toNat)) := by
    rw [addus, hmm2, BitVec.toNat_ofNat, Nat.mod_eq_of_lt (by omega)]
  simp only [pcmpeqb_self]
  change (if addus (x i) (subus 0xff T) = 0xff then (0xff : CHAR) else 0) = _
  refine if_congr ?_ rfl rfl
  rw [← BitVec.toNat_inj, hsum, hff]
  omega

theorem SDL_imageFilterShiftRight_blends {N : CHAR} (h1 : 1 ≤ N.toNat) (h8 : N.toNat ≤ 8) :
    Blends length.toNat (fun _ x _ => x >>> N.toNat)
      fun s d m => (SDL_imageFilterShiftRight cpu length N s d m).2 := by
  simp only [SDL_imageFilterShiftRight, checkShift_eq h1 h8]
  refine imageFilter_blends cpu h0 h31 (fun x => x >>> N.toNat) fun x y i => ?_
  have hmask := prepareMask_eq psrlw 0x7f (fun x n => x >>> n)
    (fun x => BitVec.ushiftRight_zero x)
    (fun x n => by rw [← BitVec.shiftRight_add, Nat.add_comm]) half_bytes N.toNat 0xff
  rw [pcmpeqb_self, hmask, psrlw_pand]

theorem SDL_imageFilterShiftLeftByte_blends {N : CHAR} (h1 : 1 ≤ N.toNat) (h8 : N.toNat ≤ 8) :
    Blends length.toNat (fun _ x _ => x <<< N.toNat)
      fun s d m => (SDL_imageFilterShiftLeftByte cpu length N s d m).2 := by
  have hop (x : CHAR) : unsigned_char ((x.toNat * 2 ^ N.toNat) % 2 ^ 8) = x <<< N.toNat := by
    apply BitVec.eq_of_toNat_eq
    rw [BitVec.toNat_shiftLeft, Nat.shiftLeft_eq, unsigned_char, BitVec.toNat_ofInt]
    norm_cast
    exact Nat.mod_mod _ _
  simp only [SDL_imageFilterShiftLeftByte, checkShift_eq h1 h8, hop]
  refine imageFilter_blends cpu h0 h31 (fun x => x <<< N.toNat) fun x y i => ?_
  have hmask := prepareMask_eq psllw 0xfe (fun x n => x <<< n)
    (fun x => BitVec.shiftLeft_zero x)
    (fun x n => by rw [← BitVec.shiftLeft_add, Nat.add_comm]) (fun x i => psllw_pand x 1 i)
    N.toNat 0xff
  rw [pcmpeqb_self, hmask, psllw_pand]

end Rows

/-! ### Single bytes in assembler -/

/-- The routine is empty without `USE_MMX`. -/
theorem byteASM_blends (cpu : Cpu) (length : ℤ) (op : CHAR → CHAR → CHAR) :
    Blends length.toNat (fun _ x y => if cpu.USE_MMX = true then op x y else y)
      (oneSource (byteASM cpu length op)) := by
  cases hmmx : cpu.USE_MMX with
  | true =>
      simp only [byteASM, hmmx, if_true]
      exact (byteStep_combines op _).oneSource
  | false =>
      simp only [byteASM, hmmx, Bool.false_eq_true, if_false]
      exact fun s d m _ a => by split <;> rfl

/-- The quotient, where it is built. -/
theorem SDL_imageFilterDiv_blends (cpu : Cpu) (length : ℤ) :
    Blends length.toNat (fun _ x y => if cpu.USE_MMX = true then divByte x y else y)
      fun s d m => (SDL_imageFilterDiv cpu length s d d m).2 := by
  intro s d m h a
  simp only [SDL_imageFilterDiv]
  split
  next => exact byteASM_blends cpu length divByte s d m h a
  next hlen => rw [if_neg (by omega)]

/-- The product without saturation, byte by byte: the bytes of whole blocks once, if the
assembler is there; those that are left once more. -/
def multNorAt (cpu : Cpu) (length i : ℤ) (x y : CHAR) : CHAR :=
  let once := if cpu.USE_MMX then multNor x y else y
  if i < length / 8 * 8 then once else multNor x once

/-- **The product without saturation** from one buffer into another. -/
theorem SDL_imageFilterMultNor_apply (cpu : Cpu) {s d : ℤ} {length : ℤ}
    (hapart : Apart s d length.toNat) (m : ℤ → CHAR) (a : ℤ) :
    SDL_imageFilterMultNor cpu length s d d m a =
      if d ≤ a ∧ a < d + length.toNat then
        multNorAt cpu length (a - d) (m (s + (a - d))) (m a)
      else m a := by
  have hasm := byteASM_blends cpu length multNor s d m hapart.clear
  simp only [Apart] at hapart
  simp only [SDL_imageFilterMultNor, SDL_imageFilterMultNorASM]
  change ∀ a, byteASM cpu length multNor s d d m a = _ at hasm
  by_cases h0 : 0 < length
  · rw [if_pos h0]
    by_cases hrest : 0 < length % 8
    · -- the tail is read again, from the source that is as before and the first product
      have hsource (i : ℤ) (hi : 0 ≤ i ∧ i < length) :
          byteASM cpu length multNor s d d m (s + i) = m (s + i) := by
        rw [hasm, if_neg (by omega)]
      rw [if_pos hrest, byteStep_combines multNor _ _ _ _ _ _ (Clear.self _ _)]
      · by_cases htail : d + length / 8 * 8 ≤ a ∧ a < d + length
        · have hsrc : s + length / 8 * 8 + (a - (d + length / 8 * 8)) = s + (a - d) := by ring
          rw [if_pos (by omega), add_sub_cancel, hsrc, hsource _ (by omega), hasm,
            if_pos (by omega), if_pos (by omega), multNorAt, if_neg (by omega)]
        · rw [if_neg (by omega), hasm]
          by_cases hin : d ≤ a ∧ a < d + length.toNat
          · rw [if_pos hin, if_pos hin, multNorAt, if_pos (by omega)]
          · rw [if_neg hin, if_neg hin]
      · simp only [Clear]
        omega
    · rw [if_neg hrest, hasm]
      by_cases hin : d ≤ a ∧ a < d + length.toNat
      · rw [if_pos hin, if_pos hin, multNorAt, if_pos (by omega)]
      · rw [if_neg hin, if_neg hin]
  · rw [if_neg h0, if_neg (by omega)]

/-! ### Where the address is looked at -/

section Address

variable {C N : CHAR} {Src1 Dest : ℤ}

/-- A block whose words are scaled, with the absolute value and without. -/
theorem scaled_block {g : Mmx → Mmx} {f : BitVec 16 → BitVec 16}
    (hg : ∀ a k, words (g a) k = f (words a k)) (x : Mmx) (i : Fin 8) :
    packuswb (absWords (g (punpcklbw x (splat 0)))) (absWords (g (punpckhbw x (splat 0)))) i =
        packus (absWord (f ((x i).setWidth 16))) ∧
      packuswb (g (punpcklbw x (splat 0))) (g (punpckhbw x (splat 0))) i =
        packus (f ((x i).setWidth 16)) := by
  have habs (a _b : Mmx) (k : Fin 4) : words (absWords (g a)) k = absWord (f (words a k)) := by
    rw [words_absWords, hg]
  exact ⟨unpacked_pack (F := fun a _ => absWords (g a)) (f := fun v _ => absWord (f v)) habs x x i,
    unpacked_pack (F := fun a _ => g a) (f := fun v _ => f v) (fun a _ k => hg a k) x x i⟩

/-- The blocks of `SDL_imageFilterMultByByte`. -/
theorem product_block (C : CHAR) (x : Mmx) (i : Fin 8) :
    packuswb (absWords (pmullw (punpcklbw x (splat 0)) (splatWord (C.setWidth 16))))
          (absWords (pmullw (punpckhbw x (splat 0)) (splatWord (C.setWidth 16)))) i =
        packus (absWord ((x i).setWidth 16 * C.setWidth 16)) ∧
      packuswb (pmullw (punpcklbw x (splat 0)) (splatWord (C.setWidth 16)))
          (pmullw (punpckhbw x (splat 0)) (splatWord (C.setWidth 16))) i =
        packus ((x i).setWidth 16 * C.setWidth 16) :=
  scaled_block (g := fun a => pmullw a (splatWord (C.setWidth 16)))
    (f := fun v => v * C.setWidth 16)
    (fun a k => by rw [pmullw, words_wordwise, splatWord, words_ofWords]) x i

/-- The blocks of `SDL_imageFilterShiftLeft`. -/
theorem shifted_block (n : ℕ) (x : Mmx) (i : Fin 8) :
    packuswb (absWords (psllw (punpcklbw x (splat 0)) n))
          (absWords (psllw (punpckhbw x (splat 0)) n)) i =
        packus (absWord ((x i).setWidth 16 <<< n)) ∧
      packuswb (psllw (punpcklbw x (splat 0)) n) (psllw (punpckhbw x (splat 0)) n) i =
        packus ((x i).setWidth 16 <<< n) :=
  scaled_block (g := fun a => psllw a n) (f := fun v => v <<< n)
    (fun a k => by rw [psllw, words_ofWords]) x i

/-- The words of `SDL_imageFilterShiftLeft`. -/
theorem toNat_shifted (x : CHAR) {n : ℕ} (h8 : n ≤ 8) :
    (x.setWidth 16 <<< n : BitVec 16).toNat = x.toNat * 2 ^ n ∧ x.toNat * 2 ^ n ≤ 255 * 2 ^ n := by
  have hx := x.isLt
  have hpow : 2 ^ n ≤ 2 ^ 8 := Nat.pow_le_pow_right Nat.two_pos h8
  have hle : x.toNat * 2 ^ n ≤ 255 * 2 ^ 8 := Nat.mul_le_mul (by omega) hpow
  refine ⟨?_, Nat.mul_le_mul_right _ (by omega)⟩
  rw [BitVec.toNat_shiftLeft, BitVec.toNat_setWidth, Nat.mod_eq_of_lt (a := x.toNat) (by omega),
    Nat.shiftLeft_eq, Nat.mod_eq_of_lt (by omega)]

/-- **The product with a byte**, unless the row begins at an address whose lowest byte is 128 and
the byte is greater than that. -/
theorem SDL_imageFilterMultByByte_apply (cpu : Cpu) (h0 : 0 ≤ length) (h31 : length < 2 ^ 31)
    (hal : SDL_imageFilterMMXdetect cpu = true ∧ 7 < length → al Src1 = -128 → C.toNat ≤ 128)
    (hclear : Clear Src1 Dest length.toNat) (m : ℤ → CHAR) (a : ℤ) :
    SDL_imageFilterMultByByte cpu length C Src1 Dest m a =
      if Dest ≤ a ∧ a < Dest + length.toNat then
        unsigned_char (saturation255 ((m (Src1 + (a - Dest))).toNat * C.toNat))
      else m a := by
  refine (imageFilter_combines (fun x _ => unsigned_char (saturation255 (x.toNat * C.toNat)))
    (fun hdetect x y i => ?_) h0 h31).oneSource Src1 Dest m hclear a
  obtain ⟨hprod, hle⟩ := toNat_product (x i) C
  obtain ⟨habs, hplain⟩ := product_block C x i
  by_cases h : al Src1 > -128
  · rw [if_pos h, habs, packus_absWord hprod (by omega), Nat.cast_mul]
  · have hmin : -128 ≤ al Src1 := BitVec.le_toInt _
    have hC := hal hdetect (by omega)
    have hsmall : (x i).toNat * C.toNat ≤ 255 * 128 :=
      Nat.mul_le_mul (Nat.le_of_lt_succ (x i).isLt) hC
    rw [if_neg h, hplain, packus_eq hprod (by omega), Nat.cast_mul]

/-- **The shift with saturation**, unless it is one by 8 and the lowest byte of the address at
which the row begins is no more than 7 as a signed byte. -/
theorem SDL_imageFilterShiftLeft_apply (cpu : Cpu) (h0 : 0 ≤ length) (h31 : length < 2 ^ 31)
    (h1 : 1 ≤ N.toNat) (h8 : N.toNat ≤ 8)
    (hal : SDL_imageFilterMMXdetect cpu = true ∧ 7 < length → al Src1 ≤ 7 → N.toNat ≤ 7)
    (hclear : Clear Src1 Dest length.toNat) (m : ℤ → CHAR) (a : ℤ) :
    (SDL_imageFilterShiftLeft cpu length N Src1 Dest m).2 a =
      if Dest ≤ a ∧ a < Dest + length.toNat then
        unsigned_char (saturation255 ((m (Src1 + (a - Dest))).toNat * 2 ^ N.toNat))
      else m a := by
  rw [SDL_imageFilterShiftLeft, checkShift_eq h1 h8]
  refine (imageFilter_combines
    (fun x _ => unsigned_char (saturation255 (x.toNat * 2 ^ N.toNat)))
    (fun hdetect x y i => ?_) h0 h31).oneSource Src1 Dest m hclear a
  obtain ⟨hshift, hle⟩ := toNat_shifted (x i) h8
  obtain ⟨habs, hplain⟩ := shifted_block N.toNat x i
  by_cases h : al Src1 > 7
  · have hpow : 2 ^ N.toNat ≤ 2 ^ 8 := Nat.pow_le_pow_right Nat.two_pos h8
    rw [if_pos h, habs, packus_absWord hshift (by omega)]
    push_cast
    rfl
  · have hpow : 2 ^ N.toNat ≤ 2 ^ 7 := Nat.pow_le_pow_right Nat.two_pos (hal hdetect (by omega))
    rw [if_neg h, hplain, packus_eq hshift (by omega)]
    push_cast
    rfl

/-- **What goes wrong in a product.** A row of bytes 255 becomes 0 where it should be 255. -/
theorem SDL_imageFilterMultByByte_wraps (cpu : Cpu) (hdetect : SDL_imageFilterMMXdetect cpu = true)
    (h7 : 7 < length) (hal : al Src1 = -128) (hC : 128 < C.toNat)
    (hclear : Clear Src1 Dest length.toNat) :
    SDL_imageFilterMultByByte cpu length C Src1 Dest (fun _ => 255) Dest = 0 := by
  have hmmx (x y : Mmx) (i : Fin 8) := (product_block C x i).2
  have hrow := (imageFilter_mmx (fun x _ => packus (x.setWidth 16 * C.setWidth 16))
    (fun x _ => unsigned_char (saturation255 (x.toNat * C.toNat))) ⟨hdetect, h7⟩
    hmmx).oneSource Src1 Dest (fun _ => 255) hclear Dest
  obtain ⟨hprod, -⟩ := toNat_product 255 C
  have h255 : (255 : CHAR).toNat = 255 := rfl
  have hin : Dest ≤ Dest ∧ Dest < Dest + (length.toNat : ℤ) := by omega
  have hblock : Dest - Dest < length / 8 * 8 := by omega
  simp only [if_pos hin, if_pos hblock] at hrow
  simp only [SDL_imageFilterMultByByte, hal, gt_iff_lt, lt_self_iff_false, if_false]
  rw [hrow, packus_of_le (by rw [hprod, h255]; omega)]

/-- **What goes wrong in a shift.** -/
theorem SDL_imageFilterShiftLeft_wraps (cpu : Cpu) (hdetect : SDL_imageFilterMMXdetect cpu = true)
    (h7 : 7 < length) (hal : al Src1 ≤ 7) (hN : N.toNat = 8)
    (hclear : Clear Src1 Dest length.toNat) :
    (SDL_imageFilterShiftLeft cpu length N Src1 Dest (fun _ => 255)).2 Dest = 0 := by
  have hmmx (x y : Mmx) (i : Fin 8) := (shifted_block N.toNat x i).2
  have hrow := (imageFilter_mmx (fun x _ => packus (x.setWidth 16 <<< N.toNat))
    (fun x _ => unsigned_char (saturation255 (x.toNat * 2 ^ N.toNat))) ⟨hdetect, h7⟩
    hmmx).oneSource Src1 Dest (fun _ => 255) hclear Dest
  have hshort : ¬ al Src1 > 7 := by omega
  have hin : Dest ≤ Dest ∧ Dest < Dest + (length.toNat : ℤ) := by omega
  have hblock : Dest - Dest < length / 8 * 8 := by omega
  simp only [if_pos hin, if_pos hblock] at hrow
  rw [SDL_imageFilterShiftLeft, checkShift_eq (by omega) (by omega)]
  simp only [if_neg hshort]
  rw [hrow, hN]
  rfl

end Address

end FreeJ
