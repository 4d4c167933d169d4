import FreeJ.BlitParameters
import FreeJ.ImageFilter

/-!
# The Linear Blits

The blit functions of `linear_blits.cpp` and the list of `setup_linear_blits`. A blit function
gets a row of the layer and a row of the screen and combines them into the latter. The number
of a blit that has one is the byte it is read as (`Parameter.byte`); bytes are in the order of
a machine that stores the low ones first.

## Main results

* `LinearBlit.blitFun_apply`: what a blit does with each byte of a row.
* `mmxoff_iff`: which blits do the same without MMX.
-/

namespace FreeJ

open Function (update)

/-- The blits that `setup_linear_blits` puts into the list, by their names. -/
inductive LinearBlit
  | RGB | ADD | SUB | MEAN | ABSDIFF | MULT | MULTNOR | DIV | MULTDIV2 | MULTDIV4 | AND | OR | XOR
  | RED | GREEN | BLUE | REDMASK | GREENMASK | BLUEMASK
  | NEG | ADDB | ADDBH | SUBB | SHL | SHLB | SHR | MULB | BIN
  deriving DecidableEq, Repr

/-- A `BLIT` on a row of `bytes` bytes. -/
abbrev BlitFun := ℤ → ℤ → (ℤ → CHAR) → ℤ → CHAR

/-- `*(uint32_t*)` -/
def wordOf (r : Fin 4 → CHAR) : BitVec 32 :=
  (List.ofFn r).foldr (fun x w => w <<< 8 ||| x.setWidth 32) 0

/-- The bytes of an `uint32_t`. -/
def bytesOf (w : BitVec 32) : Fin 4 → CHAR := fun k => w.extractLsb' (8 * k.val) 8

/-- One step of a loop over words, into the destination. -/
def wordStep (op : BitVec 32 → BitVec 32 → BitVec 32) : Combiner CHAR := fun s _ d m =>
  storeBlock m d (bytesOf (op (wordOf (loadBlock 4 m s)) (wordOf (loadBlock 4 m d))))

/-- One step of a loop that copies a channel. -/
def channelStep (chan : ℕ) : Combiner CHAR := fun s _ d m => update m (d + chan) (m (s + chan))

def rchan : ℕ := 2
def gchan : ℕ := 1
def bchan : ℕ := 0

def red_bitmask : BitVec 32 := 0x00ff0000
def green_bitmask : BitVec 32 := 0x0000ff00
def blue_bitmask : BitVec 32 := 0x000000ff

namespace LinearBlit

section Functions

variable (cpu : Cpu) (v : CHAR) (bytes : ℤ)

/-- `for(c=bytes>>2;c>0;c--)` -/
def pixelLoop (step : Combiner CHAR) : BlitFun := oneSource (strides 4 step (bytes / 4).toNat)

def blit_xor : BlitFun := pixelLoop bytes (wordStep fun s d => d ^^^ s)

/-- `jmemcpy`, which is one of several ways to copy memory. -/
def rgb_jmemcpy : BlitFun := oneSource (strides 1 (byteStep fun x _ => x) bytes.toNat)

def red_channel : BlitFun := pixelLoop bytes (channelStep rchan)
def green_channel : BlitFun := pixelLoop bytes (channelStep gchan)
def blue_channel : BlitFun := pixelLoop bytes (channelStep bchan)

/-- `red_mask`, `green_mask` and `blue_mask`, by the bitmask. -/
def mask (bitmask : BitVec 32) : BlitFun := fun src dst m =>
  SDL_imageFilterBinarizeUsingThreshold cpu bytes v dst dst
    (pixelLoop bytes (wordStep fun s d => d ||| s &&& bitmask) src dst m)

def red_mask : BlitFun := mask cpu v bytes red_bitmask
def green_mask : BlitFun := mask cpu v bytes green_bitmask
def blue_mask : BlitFun := mask cpu v bytes blue_bitmask

def schiffler_add : BlitFun := oneSource (SDL_imageFilterAdd cpu bytes)
def schiffler_sub : BlitFun := oneSource (SDL_imageFilterSub cpu bytes)
def schiffler_absdiff : BlitFun := oneSource (SDL_imageFilterAbsDiff cpu bytes)
def schiffler_mult : BlitFun := oneSource (SDL_imageFilterMult cpu bytes)
def schiffler_multnor : BlitFun := oneSource (SDL_imageFilterMultNor cpu bytes)
def schiffler_div : BlitFun := fun src dst m => (SDL_imageFilterDiv cpu bytes src dst dst m).2
def schiffler_multdiv2 : BlitFun := oneSource (SDL_imageFilterMultDivby2 cpu bytes)

/-- It calls the filter of `schiffler_multdiv2` as well. -/
def schiffler_multdiv4 : BlitFun := oneSource (SDL_imageFilterMultDivby2 cpu bytes)

def schiffler_and : BlitFun := oneSource (SDL_imageFilterBitAnd cpu bytes)
def schiffler_or : BlitFun := oneSource (SDL_imageFilterBitOr cpu bytes)

/-- `schiffler_mean`, which is not in the list. -/
def schiffler_mean : BlitFun := oneSource (SDL_imageFilterMean cpu bytes)

def schiffler_neg : BlitFun := SDL_imageFilterBitNegation cpu bytes
def schiffler_addbyte : BlitFun := SDL_imageFilterAddByte cpu bytes v
def schiffler_addbytetohalf : BlitFun := SDL_imageFilterAddByteToHalf cpu bytes v
def schiffler_subbyte : BlitFun := SDL_imageFilterSubByte cpu bytes v
def schiffler_shl : BlitFun := fun src dst m => (SDL_imageFilterShiftLeft cpu bytes v src dst m).2

def schiffler_shlb : BlitFun := fun src dst m =>
  (SDL_imageFilterShiftLeftByte cpu bytes v src dst m).2

def schiffler_shr : BlitFun := fun src dst m =>
  (SDL_imageFilterShiftRight cpu bytes v src dst m).2

def schiffler_mulbyte : BlitFun := SDL_imageFilterMultByByte cpu bytes v
def schiffler_binarize : BlitFun := SDL_imageFilterBinarizeUsingThreshold cpu bytes v

end Functions

/-- `setup_linear_blits`, the function of each blit. -/
def blitFun (cpu : Cpu) (v : CHAR) (bytes : ℤ) : LinearBlit → BlitFun
  | RGB => rgb_jmemcpy bytes
  | ADD => schiffler_add cpu bytes
  | SUB => schiffler_sub cpu bytes
  | MEAN => schiffler_add cpu bytes
  | ABSDIFF => schiffler_absdiff cpu bytes
  | MULT => schiffler_mult cpu bytes
  | MULTNOR => schiffler_multnor cpu bytes
  | DIV => schiffler_div cpu bytes
  | MULTDIV2 => schiffler_multdiv2 cpu bytes
  | MULTDIV4 => schiffler_multdiv4 cpu bytes
  | AND => schiffler_and cpu bytes
  | OR => schiffler_or cpu bytes
  | XOR => blit_xor bytes
  | RED => red_channel bytes
  | GREEN => green_channel bytes
  | BLUE => blue_channel bytes
  | REDMASK => red_mask cpu v bytes
  | GREENMASK => green_mask cpu v bytes
  | BLUEMASK => blue_mask cpu v bytes
  | NEG => schiffler_neg cpu bytes
  | ADDB => schiffler_addbyte cpu v bytes
  | ADDBH => schiffler_addbytetohalf cpu v bytes
  | SUBB => schiffler_subbyte cpu v bytes
  | SHL => schiffler_shl cpu v bytes
  | SHLB => schiffler_shlb cpu v bytes
  | SHR => schiffler_shr cpu v bytes
  | MULB => schiffler_mulbyte cpu v bytes
  | BIN => schiffler_binarize cpu v bytes

/-! ### What a blit does with a byte -/

/-- Whether a shift leaves the screen alone. -/
def shiftByte (v : CHAR) (shifted y : CHAR) : CHAR :=
  if v.toNat > 8 ∨ v.toNat < 1 then y else shifted

/-- The `i`-th byte of a row of the screen, from that of the layer and its own. -/
def blend (cpu : Cpu) (v : CHAR) (bytes : ℤ) (b : LinearBlit) (i : ℤ) (x y : CHAR) : CHAR :=
  match b with
  | RGB => x
  | ADD | MEAN => unsigned_char (saturation255 (x.toNat + y.toNat))
  | SUB => unsigned_char (saturation0 (x.toNat - y.toNat))
  | ABSDIFF => unsigned_char |(x.toNat : ℤ) - y.toNat|
  | MULT => unsigned_char (saturation255 (x.toNat * y.toNat))
  | MULTNOR => multNorAt cpu bytes i x y
  | DIV => if cpu.USE_MMX = true then divByte x y else y
  | MULTDIV2 | MULTDIV4 => unsigned_char (saturation255 (x.toNat / 2 * y.toNat))
  | AND => x &&& y
  | OR => x ||| y
  | XOR => y ^^^ x
  | RED => if i % 4 = 2 then x else y
  | GREEN => if i % 4 = 1 then x else y
  | BLUE => if i % 4 = 0 then x else y
  | REDMASK => if (if i % 4 = 2 then y ||| x else y).toNat ≥ v.toNat then 255 else 0
  | GREENMASK => if (if i % 4 = 1 then y ||| x else y).toNat ≥ v.toNat then 255 else 0
  | BLUEMASK => if (if i % 4 = 0 then y ||| x else y).toNat ≥ v.toNat then 255 else 0
  | NEG => ~~~x
  | ADDB => unsigned_char (saturation255 (x.toNat + v.toNat))
  | ADDBH => unsigned_char (saturation255 (x.toNat / 2 + v.toNat))
  | SUBB => unsigned_char (saturation0 (x.toNat - v.toNat))
  | SHL => shiftByte v (unsigned_char (saturation255 (x.toNat * 2 ^ v.toNat))) y
  | SHLB => shiftByte v (x <<< v.toNat) y
  | SHR => shiftByte v (x >>> v.toNat) y
  | MULB => unsigned_char (saturation255 (x.toNat * v.toNat))
  | BIN => if x.toNat ≥ v.toNat then 255 else 0

/-- The rows of a blit for which the assembler looks into the address and takes the wrong loop. -/
def Wraps (cpu : Cpu) (v : CHAR) (bytes src : ℤ) (b : LinearBlit) : Prop :=
  (SDL_imageFilterMMXdetect cpu = true ∧ 7 < bytes) ∧
    (b = MULB ∧ al src = -128 ∧ 128 < v.toNat ∨ b = SHL ∧ al src ≤ 7 ∧ v.toNat = 8)

/-! ### Loops over pixels -/

variable {n : ℕ} {f : BlitFun} {step : Combiner CHAR} {bytes : ℤ}

/-- A loop over the pixels of a row, each of which is worked on byte by byte. -/
theorem pixelLoop_blends (op : ℤ → CHAR → CHAR → CHAR) (h4 : bytes % 4 = 0)
    (hstep : ∀ s d m, step s d d m = storeBlock m d fun i : Fin 4 =>
      op i.val (loadBlock 4 m s i) (loadBlock 4 m d i)) :
    Blends bytes.toNat (fun i => op (i % 4)) (pixelLoop bytes step) := by
  have hblock : Combines 4 op fun s₁ s₂ d m => storeBlock m d fun i : Fin 4 =>
      op i.val (loadBlock 4 m s₁ i) (loadBlock 4 m s₂ i) :=
    Combines.storeBlock fun _ _ _ => rfl
  have hloop := (hblock.strides (bytes / 4).toNat).oneSource
  rw [show 4 * (bytes / 4).toNat = bytes.toNat by omega] at hloop
  intro s d m hclear a
  exact (congrFun (strides_congr hstep _ s d m) a).trans (hloop s d m hclear a)

/-- A loop that copies a channel. -/
theorem channelStep_blends {chan : ℕ} (hchan : chan < 4) (h4 : bytes % 4 = 0) :
    Blends bytes.toNat (fun i x y => if i % 4 = chan then x else y)
      (pixelLoop bytes (channelStep chan)) := by
  refine pixelLoop_blends (fun i x y => if i = chan then x else y) h4 fun s d m => ?_
  simp only [Nat.cast_inj]
  exact update_eq_storeBlock hchan s d m

/-- The bytes of a word. -/
theorem bytesOf_wordOf (r : Fin 4 → CHAR) (k : Fin 4) : bytesOf (wordOf r) k = r k := by
  refine BitVec.eq_of_getLsbD_eq fun j hj => ?_
  -- the other bytes have no bit there
  fin_cases k <;>
    simp (disch := omega) [bytesOf, wordOf, List.ofFn_succ, hj, BitVec.getLsbD_of_ge] <;>
    grind

/-- **Words byte by byte**: a loop with an operation on words that works on their bytes. -/
theorem wordStep_blends (op : ℤ → CHAR → CHAR → CHAR) {g : BitVec 32 → BitVec 32 → BitVec 32}
    (h4 : bytes % 4 = 0)
    (hg : ∀ s d k, bytesOf (g s d) k = op k.val (bytesOf s k) (bytesOf d k)) :
    Blends bytes.toNat (fun i => op (i % 4)) (pixelLoop bytes (wordStep g)) := by
  refine pixelLoop_blends op h4 fun s d m => ?_
  rw [wordStep]
  congr 1
  funext k
  rw [hg, bytesOf_wordOf, bytesOf_wordOf]

theorem blit_xor_blends (h4 : bytes % 4 = 0) :
    Blends bytes.toNat (fun _ x y => y ^^^ x) (blit_xor bytes) :=
  wordStep_blends (fun _ x y => y ^^^ x) h4 fun _ _ _ => BitVec.extractLsb'_xor

/-- A mask is all ones in the byte of its channel. -/
theorem mask_blends (cpu : Cpu) (v : CHAR) (chan : ℕ) {bitmask : BitVec 32}
    (hmask : ∀ k : Fin 4, bytesOf bitmask k = if k.val = chan then 0xff else 0)
    (h0 : 0 ≤ bytes) (h31 : bytes < 2 ^ 31) (h4 : bytes % 4 = 0) :
    Blends bytes.toNat
      (fun i x y => if (if i % 4 = chan then y ||| x else y).toNat ≥ v.toNat then 255 else 0)
      (mask cpu v bytes bitmask) := by
  have hword (s d : BitVec 32) (k : Fin 4) :
      bytesOf (d ||| s &&& bitmask) k =
        if (k.val : ℤ) = chan then bytesOf d k ||| bytesOf s k else bytesOf d k := by
    have hbytes : bytesOf (d ||| s &&& bitmask) k =
        bytesOf d k ||| bytesOf s k &&& bytesOf bitmask k := by
      simp only [bytesOf, BitVec.extractLsb'_or, BitVec.extractLsb'_and]
    rw [hbytes, hmask]
    simp only [Nat.cast_inj]
    split
    · rw [show (0xff : CHAR) = BitVec.allOnes 8 from rfl, BitVec.and_allOnes]
    · rw [show (0 : CHAR) = 0#8 from rfl, BitVec.and_zero, BitVec.or_zero]
  have hloop := wordStep_blends (fun i x y => if i = chan then y ||| x else y) h4 hword
  have hbin := SDL_imageFilterBinarizeUsingThreshold_blends cpu h0 h31 v
  intro s d m hclear a
  rw [mask, hbin d d _ (Clear.self _ _), add_sub_cancel, hloop s d m hclear]
  split <;> rfl

/-! ### All blits -/

section All

variable (cpu : Cpu) (v : CHAR) (h0 : 0 ≤ bytes) (h31 : bytes < 2 ^ 31) (h4 : bytes % 4 = 0)

/-- A shift that checks its number. -/
theorem shift_blends {g : CHAR → CHAR} {h : ℤ → ℤ → (ℤ → CHAR) → ℤ × (ℤ → CHAR)}
    (hin : 1 ≤ v.toNat → v.toNat ≤ 8 → Blends n (fun _ x _ => g x) fun s d m => (h s d m).2)
    (hout : v.toNat > 8 ∨ v.toNat < 1 → ∀ s d m, h s d m = (-1, m)) :
    Blends n (fun _ x y => shiftByte v (g x) y) fun s d m => (h s d m).2 := by
  simp only [shiftByte]
  by_cases hv : v.toNat > 8 ∨ v.toNat < 1
  · simp only [if_pos hv, hout hv]
    exact fun s d m _ a => by split <;> rfl
  · simp only [if_neg hv]
    exact hin (by omega) (by omega)

include h0 h31 h4

/-- Every blit but the two that look at the address, and the product that is made twice. -/
theorem blitFun_blends {b : LinearBlit} (hb : b ≠ MULTNOR ∧ b ≠ SHL ∧ b ≠ MULB) :
    Blends bytes.toNat (b.blend cpu v bytes) (b.blitFun cpu v bytes) := by
  cases b with
  | RGB => exact (byteStep_combines (fun x _ => x) bytes.toNat).oneSource
  | ADD | MEAN => exact (SDL_imageFilterAdd_combines cpu h0 h31).oneSource
  | SUB => exact (SDL_imageFilterSub_combines cpu h0 h31).oneSource
  | ABSDIFF => exact (SDL_imageFilterAbsDiff_combines cpu h0 h31).oneSource
  | MULT => exact (SDL_imageFilterMult_combines cpu h0 h31).oneSource
  | MULTNOR => exact absurd rfl hb.1
  | DIV => exact SDL_imageFilterDiv_blends cpu bytes
  | MULTDIV2 | MULTDIV4 => exact (SDL_imageFilterMultDivby2_combines cpu h0 h31).oneSource
  | AND => exact (SDL_imageFilterBitAnd_combines cpu h0 h31).oneSource
  | OR => exact (SDL_imageFilterBitOr_combines cpu h0 h31).oneSource
  | XOR => exact blit_xor_blends h4
  | RED => exact channelStep_blends (by decide) h4
  | GREEN => exact channelStep_blends (by decide) h4
  | BLUE => exact channelStep_blends (by decide) h4
  | REDMASK => exact mask_blends cpu v 2 (by decide) h0 h31 h4
  | GREENMASK => exact mask_blends cpu v 1 (by decide) h0 h31 h4
  | BLUEMASK => exact mask_blends cpu v 0 (by decide) h0 h31 h4
  | NEG => exact SDL_imageFilterBitNegation_blends cpu h0 h31
  | ADDB => exact SDL_imageFilterAddByte_blends cpu h0 h31 v
  | ADDBH => exact SDL_imageFilterAddByteToHalf_blends cpu h0 h31 v
  | SUBB => exact SDL_imageFilterSubByte_blends cpu h0 h31 v
  | SHL => exact absurd rfl hb.2.1
  | SHLB =>
      exact shift_blends v (SDL_imageFilterShiftLeftByte_blends cpu h0 h31)
        fun hv s d m => if_pos hv
  | SHR =>
      exact shift_blends v (SDL_imageFilterShiftRight_blends cpu h0 h31)
        fun hv s d m => if_pos hv
  | MULB => exact absurd rfl hb.2.2
  | BIN => exact SDL_imageFilterBinarizeUsingThreshold_blends cpu h0 h31 v

/-- **What a blit does.** Between a row of the layer and one of the screen that do not overlap,
each byte of the latter is replaced by what the blit makes of it, and nothing else changes;
but for the rows for which the assembler takes the wrong loop. -/
theorem blitFun_apply {b : LinearBlit} {s d : ℤ} (hapart : Apart s d bytes.toNat)
    (hwraps : ¬ b.Wraps cpu v bytes s) (m : ℤ → CHAR) (a : ℤ) :
    b.blitFun cpu v bytes s d m a =
      if d ≤ a ∧ a < d + bytes.toNat then b.blend cpu v bytes (a - d) (m (s + (a - d))) (m a)
      else m a := by
  by_cases hb : b ≠ MULTNOR ∧ b ≠ SHL ∧ b ≠ MULB
  · exact blitFun_blends cpu v h0 h31 h4 hb s d m hapart.clear a
  · cases b with
    | MULTNOR => exact SDL_imageFilterMultNor_apply cpu hapart m a
    | MULB =>
        refine SDL_imageFilterMultByByte_apply cpu h0 h31 (fun hmmx hal => ?_) hapart.clear m a
        by_contra hv
        exact hwraps ⟨hmmx, Or.inl ⟨rfl, hal, by omega⟩⟩
    | SHL =>
        change (SDL_imageFilterShiftLeft cpu bytes v s d m).2 a = _
        by_cases hv : v.toNat > 8 ∨ v.toNat < 1
        · have hout : SDL_imageFilterShiftLeft cpu bytes v s d m = (-1, m) := if_pos hv
          simp only [hout, blend, shiftByte, if_pos hv, ite_self]
        · simp only [blend, shiftByte, if_neg hv]
          refine SDL_imageFilterShiftLeft_apply cpu h0 h31 (by omega) (by omega)
            (fun hmmx hal => ?_) hapart.clear m a
          by_contra h8
          exact hwraps ⟨hmmx, Or.inr ⟨rfl, hal, by omega⟩⟩
    | _ => exact absurd ⟨by decide, by decide, by decide⟩ hb

/-- A row of bytes 255 for which the assembler takes the wrong loop. -/
theorem blitFun_wraps {b : LinearBlit} {s d : ℤ} (hapart : Apart s d bytes.toNat)
    (hwraps : b.Wraps cpu v bytes s) :
    b.blitFun cpu v bytes s d (fun _ => 255) d = 0 ∧
      b.blitFun (SDL_imageFilterMMXoff cpu) v bytes s d (fun _ => 255) d = 255 := by
  have hoff : ¬ b.Wraps (SDL_imageFilterMMXoff cpu) v bytes s := fun h =>
    Bool.noConfusion h.1.1
  have hin : d ≤ d ∧ d < d + (bytes.toNat : ℤ) := by
    have h7 := hwraps.1.2
    omega
  have hbig (n : ℕ) (hn : 1 ≤ n) :
      unsigned_char (saturation255 ((255 : CHAR).toNat * n)) = 255 := by
    have hff : (255 : CHAR).toNat = 255 := rfl
    have hmin : min 255 ((255 : CHAR).toNat * n) = 255 := by
      rw [hff]
      omega
    rw [← Nat.cast_mul, saturation255_natCast, hmin]
    rfl
  have hplain := blitFun_apply (SDL_imageFilterMMXoff cpu) v h0 h31 h4 hapart hoff
    (fun _ => 255) d
  rw [if_pos hin] at hplain
  rw [hplain]
  obtain ⟨⟨hmmx, h7⟩, ⟨rfl, hal, hv⟩ | ⟨rfl, hal, hv⟩⟩ := hwraps
  · exact ⟨SDL_imageFilterMultByByte_wraps cpu hmmx h7 hal hv hapart.clear, hbig _ (by omega)⟩
  · refine ⟨SDL_imageFilterShiftLeft_wraps cpu hmmx h7 hal hv hapart.clear, ?_⟩
    rw [blend, shiftByte, if_neg (by omega)]
    exact_mod_cast hbig (2 ^ v.toNat) Nat.one_le_two_pow

end All

/-! ### How blits compose -/

section Compose

variable (cpu : Cpu) (v v' : CHAR)

/-- The blits that completely overwrite the underlying image: the effects, but the shifts only
with a number in range, and the masks if their threshold is zero. -/
def overwrites (v : CHAR) : LinearBlit → Bool
  | RGB | NEG | ADDB | ADDBH | SUBB | MULB | BIN => true
  | SHL | SHLB | SHR => 1 ≤ v.toNat && v.toNat ≤ 8
  | REDMASK | GREENMASK | BLUEMASK => v.toNat = 0
  | _ => false

/-- Blits of one kind, whatever they are made of. -/
inductive Family
  | sum
  | product
  | and
  | or
  | xor
  | channel (chan : ℕ)
  deriving DecidableEq

/-- What a blit of the kind does with a byte. -/
def Family.op (i : ℤ) (x y : CHAR) : Family → CHAR
  | .sum => unsigned_char (saturation255 (x.toNat + y.toNat : ℕ))
  | .product => unsigned_char (saturation255 (x.toNat * y.toNat : ℕ))
  | .and => x &&& y
  | .or => x ||| y
  | .xor => y ^^^ x
  | .channel chan => if i % 4 = chan then x else y

/-- Whether blits of two kinds may be exchanged. -/
def Family.exchange : Family → Family → Bool
  | .channel chan, .channel chan' => chan ≠ chan'
  | f, g => f = g

/-- The kind of a blit. -/
def family : LinearBlit → Option Family
  | ADD | MEAN => some .sum
  | MULT | MULTDIV2 | MULTDIV4 => some .product
  | AND => some .and
  | OR => some .or
  | XOR => some .xor
  | RED => some (.channel rchan)
  | GREEN => some (.channel gchan)
  | BLUE => some (.channel bchan)
  | _ => none

/-- What the blit takes of the layer for that. -/
def operand (x : CHAR) : LinearBlit → CHAR
  | MULTDIV2 | MULTDIV4 => x >>> 1
  | _ => x

/-- Two blits that may be exchanged. -/
def commutes (b b' : LinearBlit) : Bool :=
  match b.family, b'.family with
  | some f, some g => f.exchange g
  | _, _ => false

/-- A product with saturation. -/
theorem toNat_saturated (n : ℕ) : (unsigned_char (saturation255 n)).toNat = min 255 n := by
  rw [saturation255_natCast, unsigned_char_natCast, BitVec.toNat_ofNat, Nat.mod_eq_of_lt (by omega)]

/-- Two sums with saturation. -/
theorem add_comm_saturated (a b y : ℕ) :
    unsigned_char (saturation255 (a + (unsigned_char (saturation255 (b + y : ℕ))).toNat : ℕ)) =
      unsigned_char
        (saturation255 (b + (unsigned_char (saturation255 (a + y : ℕ))).toNat : ℕ)) := by
  apply BitVec.eq_of_toNat_eq
  simp only [toNat_saturated]
  omega

/-- A saturated product that is multiplied once more. -/
theorem min_mul_min (a b y : ℕ) (ha : 1 ≤ a) :
    min 255 (a * min 255 (b * y)) = min 255 (a * (b * y)) := by
  rcases Nat.le_total (b * y) 255 with h | h
  · rw [Nat.min_eq_right h]
  · have h1 : 1 * 255 ≤ a * 255 := Nat.mul_le_mul_right 255 ha
    have h2 : a * 255 ≤ a * (b * y) := Nat.mul_le_mul_left a h
    rw [Nat.min_eq_left h]
    omega

/-- Two products with saturation. -/
theorem mul_comm_saturated (a b y : ℕ) :
    unsigned_char (saturation255 (a * (unsigned_char (saturation255 (b * y : ℕ))).toNat : ℕ)) =
      unsigned_char
        (saturation255 (b * (unsigned_char (saturation255 (a * y : ℕ))).toNat : ℕ)) := by
  apply BitVec.eq_of_toNat_eq
  simp only [toNat_saturated]
  rcases Nat.eq_zero_or_pos a with rfl | ha
  · simp
  · rcases Nat.eq_zero_or_pos b with rfl | hb
    · simp
    · rw [min_mul_min a b y ha, min_mul_min b a y hb, Nat.mul_left_comm]

/-- A blit does what its kind does. -/
theorem blend_family {b : LinearBlit} {f : Family} (hf : b.family = some f) (bytes i : ℤ)
    (x y : CHAR) : b.blend cpu v bytes i x y = f.op i (b.operand x) y := by
  cases b <;> cases hf <;>
    simp only [blend, Family.op, operand] <;> rfl

/-- Blits of kinds that may be exchanged. -/
theorem Family.op_comm {f g : Family} (h : f.exchange g = true) {i i' : ℤ} (hi : i % 4 = i' % 4)
    (x x' y : CHAR) : f.op i x (g.op i' x' y) = g.op i' x' (f.op i x y) := by
  cases f <;> cases g <;> simp [exchange] at h
  case sum.sum => exact add_comm_saturated _ _ _
  case product.product => exact mul_comm_saturated _ _ _
  case and.and => simp only [op, ← BitVec.and_assoc, BitVec.and_comm x x']
  case or.or => simp only [op, ← BitVec.or_assoc, BitVec.or_comm x x']
  case xor.xor => simp only [op, BitVec.xor_assoc, BitVec.xor_comm x x']
  case channel.channel chan chan' =>
    simp only [op, hi]
    split
    next hc =>
      rw [if_neg fun hc' => h (by omega)]
    next => rfl

/-- **Blits that may be exchanged**, whatever their numbers and the rows they work on. -/
theorem blend_comm {b b' : LinearBlit} (h : b.commutes b' = true) {i i' : ℤ}
    (hi : i % 4 = i' % 4) (bytes bytes' : ℤ) (x x' y : CHAR) :
    b.blend cpu v bytes i x (b'.blend cpu v' bytes' i' x' y) =
      b'.blend cpu v' bytes' i' x' (b.blend cpu v bytes i x y) := by
  simp only [commutes] at h
  split at h
  next f g hf hg =>
    simp only [blend_family cpu v hf, blend_family cpu v' hg]
    exact Family.op_comm h hi _ _ y
  next => exact absurd h Bool.false_ne_true

/-- **A blit that overwrites** the image pays no attention to it. -/
theorem blend_overwrites {b : LinearBlit} (h : b.overwrites v = true) (bytes i : ℤ)
    (x y y' : CHAR) : b.blend cpu v bytes i x y = b.blend cpu v bytes i x y' := by
  have hmask (z : CHAR) (hv : v.toNat = 0) :
      (if z.toNat ≥ v.toNat then (255 : CHAR) else 0) = 255 :=
    if_pos (by omega)
  cases b <;> simp only [overwrites, Bool.false_eq_true] at h <;> try rfl
  case REDMASK | GREENMASK | BLUEMASK =>
    simp only [blend, hmask _ (of_decide_eq_true h)]
  case SHL | SHLB | SHR =>
    simp only [Bool.and_eq_true, decide_eq_true_eq] at h
    have hv : ¬ (v.toNat > 8 ∨ v.toNat < 1) := by omega
    simp only [blend, shiftByte, if_neg hv]

/-- A blit that pays no attention to the first two bytes of the image overwrites it. -/
theorem overwrites_of_blend {b : LinearBlit} (bytes : ℤ)
    (h : ∀ i, 0 ≤ i ∧ i < 2 → ∀ x y y',
      b.blend cpu v bytes i x y = b.blend cpu v bytes i x y') :
    b.overwrites v = true := by
  have h0 := h 0 ⟨by omega, by omega⟩
  have h1 := h 1 ⟨by omega, by omega⟩
  have hmask (hv : v.toNat ≠ 0) : (if (0 : CHAR).toNat ≥ v.toNat then (255 : CHAR) else 0) ≠
      if (255 : CHAR).toNat ≥ v.toNat then 255 else 0 := by
    have hlt := v.isLt
    have hzero : (0 : CHAR).toNat = 0 := rfl
    have hfull : (255 : CHAR).toNat = 255 := rfl
    rw [if_neg (by omega), if_pos (by omega)]
    decide
  cases b with
  | RGB | NEG | ADDB | ADDBH | SUBB | MULB | BIN => rfl
  | ADD | MEAN | ABSDIFF => exact absurd (h0 0 0 255) (by simp [blend]; decide)
  | OR | XOR => exact absurd (h0 0 0 255) (by simp [blend])
  | SUB => exact absurd (h0 255 0 255) (by simp [blend]; decide)
  | AND => exact absurd (h0 255 0 255) (by simp [blend])
  | MULT => exact absurd (h0 1 0 255) (by simp [blend]; decide)
  | MULTDIV2 | MULTDIV4 => exact absurd (h0 2 0 255) (by simp [blend]; decide)
  | MULTNOR =>
      have hone (y : CHAR) : multNor 1 y = y := by
        change unsigned_char ((1 : ℤ) * y.toNat) = y
        rw [one_mul, unsigned_char_natCast, BitVec.ofNat_toNat, BitVec.setWidth_eq]
      refine absurd (h0 1 0 255) ?_
      simp only [blend, multNorAt, hone, ite_self]
      decide
  | DIV =>
      refine absurd (h0 1 0 1) ?_
      cases hmmx : cpu.USE_MMX with
      | true =>
          simp [blend, hmmx]
          decide
      | false => simp [blend, hmmx]
  | RED | GREEN => exact absurd (h0 0 0 255) (by simp [blend])
  | BLUE => exact absurd (h1 0 0 255) (by simp [blend])
  | REDMASK | GREENMASK =>
      by_contra hv
      exact hmask (by simpa [overwrites] using hv) (h0 0 0 255)
  | BLUEMASK =>
      by_contra hv
      exact hmask (by simpa [overwrites] using hv) (h1 0 0 255)
  | SHL | SHLB | SHR =>
      by_contra hv
      have hout : v.toNat > 8 ∨ v.toNat < 1 := by
        simp only [overwrites, Bool.and_eq_true, decide_eq_true_eq] at hv
        omega
      have hbyte := h0 0 0 255
      simp only [blend, shiftByte, if_pos hout] at hbyte
      exact absurd hbyte (by decide)

/-- What is combined with exclusive or twice. -/
theorem blend_xor (bytes i : ℤ) (x y : CHAR) :
    XOR.blend cpu v bytes i x (XOR.blend cpu v bytes i x y) = y := by
  simp only [blend, BitVec.xor_assoc, BitVec.xor_self, BitVec.xor_zero]

end Compose

end LinearBlit

end FreeJ
