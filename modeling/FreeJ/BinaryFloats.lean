import Mathlib
import FreeJ.Cells

/-!
# Binary Floating-Point Numbers in Memory

Single and double precision numbers, the rational numbers that they stand for, and how they are
kept in cells of bytes, the lowest byte first. Infinities and what is not a number stand for
none.

## Main results

* `abs_of_number`: the number that a bit pattern stands for, by its fields.
* `low_half_eq_zero`: a double precision number whose low half, read in single precision, is the
  same number can only be zero.
* `Cells.sameNumber_iff`: when a stored double precision number is read back in single precision.
* `number_mul_ne_zero`: a product with a number that is not less than one is not rounded to zero.
-/

namespace Float.Model.UnpackedFloat

variable {spec : Format} {u w : UnpackedFloat} {s : Sign} {m k : ℕ} {e a c : ℤ} {q : ℚ}

/-- The rational number that a floating-point number stands for. -/
def number : UnpackedFloat → Option ℚ
  | .zero _ => some 0
  | .finite .positive m e _ => some (m * 2 ^ e)
  | .finite .negative m e _ => some (-(m * 2 ^ e))
  | _ => none

/-- Both stand for the same rational number. -/
def SameNumber (u w : UnpackedFloat) : Prop := u.number ≠ none ∧ u.number = w.number

instance (u w : UnpackedFloat) : Decidable (SameNumber u w) :=
  inferInstanceAs (Decidable (_ ∧ _))

theorem number_finite_ne_zero (hm : 0 < m) : (UnpackedFloat.finite s m e hm).number ≠ some 0 := by
  have hpos : (0 : ℚ) < m * 2 ^ e := by positivity
  intro h
  cases s with
  | positive => exact hpos.ne' (Option.some.inj h)
  | negative => exact hpos.ne' (neg_eq_zero.mp (Option.some.inj h))

theorem number_eq_zero_iff : u.number = some 0 ↔ ∃ s, u = .zero s := by
  refine ⟨fun h => ?_, fun ⟨s, hs⟩ => hs ▸ rfl⟩
  match u with
  | .zero s => exact ⟨s, rfl⟩
  | .finite _ _ _ hm => exact absurd h (number_finite_ne_zero hm)
  | .infinity _ => cases h
  | .notANumber => cases h

theorem abs_of_number_finite {hm : 0 < m} (h : (UnpackedFloat.finite s m e hm).number = some q) :
    |q| = m * 2 ^ e := by
  have hpos : (0 : ℚ) ≤ m * 2 ^ e := by positivity
  cases s with
  | positive => rw [← Option.some.inj h, abs_of_nonneg hpos]
  | negative => rw [← Option.some.inj h, abs_neg, abs_of_nonneg hpos]

/-! ### The fields of a bit pattern -/

theorem toNat_unpackMantissa (b : BitVec spec.numBits) :
    (unpackMantissa b).toNat = b.toNat % 2 ^ spec.mantissaBitsWithoutImplicit := by
  have hm := spec.hm
  rw [unpackMantissa, BitVec.toNat_cast, BitVec.extractLsb_toNat, Nat.shiftRight_zero]
  congr 2
  omega

theorem toNat_unpackExponent (b : BitVec spec.numBits) :
    (unpackExponent b).toNat =
      b.toNat / 2 ^ spec.mantissaBitsWithoutImplicit % 2 ^ spec.exponentBits := by
  have he := spec.he
  rw [unpackExponent, BitVec.toNat_cast, BitVec.extractLsb_toNat, Nat.shiftRight_eq_div_pow]
  congr 2
  omega

/-- The mantissa of a bit pattern with a mantissa field and an exponent field. -/
def significand (spec : Format) (mantissa exponent : ℕ) : ℕ :=
  if exponent = 0 then mantissa else 2 ^ spec.mantissaBitsWithoutImplicit + mantissa

/-- **What a bit pattern stands for**, by its fields. -/
theorem abs_of_number {b : BitVec spec.numBits} (h : (unpack spec b).number = some q) :
    |q| = significand spec (unpackMantissa b).toNat (unpackExponent b).toNat *
      2 ^ (max ((unpackExponent b).toNat : ℤ) 1 -
        (spec.exponentBias + spec.mantissaBitsWithoutImplicit)) := by
  unfold unpack at h
  dsimp only at h
  split_ifs at h with hones hnan hzero hmantissa
  · cases h
  · cases h
  · rw [significand, if_pos (by rw [hzero]; rfl), ← Option.some.inj h, hmantissa]
    simp
  · have hfield : (unpackExponent b).toNat = 0 := by rw [hzero]; rfl
    rw [abs_of_number_finite h, significand, if_pos hfield, hfield]
    congr 2
    push_cast
    omega
  · have hfield : (unpackExponent b).toNat ≠ 0 := fun h0 => hzero (BitVec.eq_of_toNat_eq h0)
    have hmax : max ((unpackExponent b).toNat : ℤ) 1 = (unpackExponent b).toNat :=
      max_eq_left (by omega)
    rw [abs_of_number_finite h, significand, if_neg hfield, hmax, BitVec.toNat_append,
      ← Nat.shiftLeft_add_eq_or_of_lt (BitVec.isLt _), Nat.shiftLeft_eq, BitVec.toNat_ofNat,
      Nat.mod_eq_of_lt Nat.one_lt_two, Nat.one_mul]

/-! ### The low half -/

/-- Equal numbers, the exponent of the first the greater one. -/
theorem eq_mul_two_pow {A B : ℕ} (h : (A : ℚ) * 2 ^ a = B * 2 ^ c) (hle : c ≤ a) :
    B = A * 2 ^ (a - c).toNat := by
  have hpow : (2 : ℚ) ^ a = 2 ^ (a - c).toNat * 2 ^ c := by
    rw [← zpow_natCast, Int.toNat_of_nonneg (by omega), ← zpow_add₀ two_ne_zero]
    congr 1
    omega
  have hc : (2 : ℚ) ^ c ≠ 0 := by positivity
  rw [hpow, ← mul_assoc] at h
  exact_mod_cast (mul_right_cancel₀ hc h).symm

theorem significand_lt {mantissa exponent : ℕ}
    (h : mantissa < 2 ^ spec.mantissaBitsWithoutImplicit) :
    significand spec mantissa exponent < 2 ^ (spec.mantissaBitsWithoutImplicit + 1) := by
  rw [significand, Nat.pow_succ]
  split_ifs <;> omega

/-- The low half of a double precision number is another number in single precision, except for
zero. -/
theorem low_half_eq_zero {b f x g y : ℕ} (hf : f = b % 2 ^ 52) (hx : x = b / 2 ^ 52 % 2 ^ 11)
    (hg : g = b % 2 ^ 32 % 2 ^ 23) (hy : y = b % 2 ^ 32 / 2 ^ 23 % 2 ^ 8)
    (h : (significand .binary32 g y : ℚ) * 2 ^ (max (y : ℤ) 1 - 150) =
      significand .binary64 f x * 2 ^ (max (x : ℤ) 1 - 1075)) :
    significand .binary32 g y = 0 := by
  by_contra hne
  have hg' : g < 2 ^ Format.mantissaBitsWithoutImplicit .binary32 :=
    hg ▸ Nat.mod_lt _ (by decide)
  have hA : significand .binary32 g y < 2 ^ 24 := significand_lt hg'
  have hflt : f < 2 ^ 52 := hf ▸ Nat.mod_lt _ (by decide)
  have hx0 : x ≠ 0 := by
    rintro rfl
    have heq := eq_mul_two_pow h (by omega)
    have hbig : 2 ^ 52 ≤ 2 ^ (max (y : ℤ) 1 - 150 - (max ((0 : ℕ) : ℤ) 1 - 1075)).toNat :=
      Nat.pow_le_pow_right two_pos (by omega)
    have hmul := Nat.mul_le_mul (Nat.one_le_iff_ne_zero.mpr hne) hbig
    rw [← heq, significand, if_pos rfl] at hmul
    omega
  have hB : significand .binary64 f x = 2 ^ 52 + f := if_neg hx0
  rw [hB] at h
  -- the greater mantissa has the smaller exponent
  have hle : max (x : ℤ) 1 - 1075 ≤ max (y : ℤ) 1 - 150 := by
    by_contra hlt
    have heq := eq_mul_two_pow h.symm (by omega)
    have hone := Nat.le_mul_of_pos_right (2 ^ 52 + f)
      (Nat.two_pow_pos (max (x : ℤ) 1 - 1075 - (max (y : ℤ) 1 - 150)).toNat)
    omega
  have heq := eq_mul_two_pow h hle
  generalize (max (y : ℤ) 1 - 150 - (max (x : ℤ) 1 - 1075)).toNat = k at heq
  have hk : 29 ≤ k := by
    by_contra hlt
    have hpow : 2 ^ k ≤ 2 ^ 28 := Nat.pow_le_pow_right two_pos (by omega)
    have hmul := Nat.mul_lt_mul_of_lt_of_le hA hpow (by decide)
    omega
  -- so the low 29 bits are zero, and the low half has no mantissa
  obtain ⟨t, ht⟩ : 2 ^ 29 ∣ 2 ^ 52 + f := heq ▸ Dvd.dvd.mul_left (Nat.pow_dvd_pow 2 hk) _
  have hg0 : g = 0 := by omega
  have hA23 : significand .binary32 g y = 2 ^ 23 := by
    rw [significand] at hne ⊢
    split_ifs at hne ⊢
    · exact absurd hg0 hne
    · exact congrArg (2 ^ 23 + ·) hg0
  rw [hA23, ← Nat.pow_add] at heq
  have hk29 : 23 + k = 52 := by
    have hlt : 2 ^ (23 + k) < 2 ^ 53 := by omega
    have := (Nat.pow_lt_pow_iff_right one_lt_two).mp hlt
    omega
  rw [hk29] at heq
  have hy0 : y = 0 := by omega
  rw [hy0, hg0, significand, if_pos rfl] at hne
  exact hne rfl

/-! ### Products -/

theorem mantissa_shiftRight (em : ExtendedMantissa) (n : ℕ) :
    (em >>> n).mantissa = em.mantissa / 2 ^ n := by
  induction n with
  | zero => rw [Nat.pow_zero, Nat.div_one]; rfl
  | succ n ih =>
      have hstep : (em >>> (n + 1)).mantissa = (em >>> n).mantissa / 2 := rfl
      rw [hstep, ih, Nat.div_div_eq_div_mul, Nat.pow_succ]

theorem le_roundedMantissa : ∀ em : ExtendedMantissa, em.mantissa ≤ em.roundedMantissa
  | ⟨m, false, false⟩ => Nat.le_refl m
  | ⟨m, false, true⟩ => Nat.le_refl m
  | ⟨m, true, false⟩ => Nat.le_add_right m _
  | ⟨m, true, true⟩ => Nat.le_succ m

/-- A mantissa, shifted as far as the format asks for, is not gone if the number is not less than
the smallest one, and then it fits the format. -/
theorem shift_spec (hm : 0 < m) (hmin : e < -1074 → 2 ^ (-1074 - e).toNat ≤ m) :
    0 < (shiftToTargetExponent .binary64 m e .exact).1.mantissa ∧
      (shiftToTargetExponent .binary64 m e .exact).1.mantissa < 2 ^ 53 ∧
      -1074 ≤ (shiftToTargetExponent .binary64 m e .exact).2 := by
  have htarget : Format.targetExponent .binary64 (totalExponent m e) =
      max (m.log2 + 1 + e - 53) (-1074) := rfl
  have hexp : (shiftToTargetExponent .binary64 m e .exact).2 =
      e + (max (m.log2 + 1 + e - 53 : ℤ) (-1074) - e).toNat := rfl
  have hmantissa : (shiftToTargetExponent .binary64 m e .exact).1.mantissa =
      m / 2 ^ (max (m.log2 + 1 + e - 53 : ℤ) (-1074) - e).toNat := by
    rw [← htarget]
    exact mantissa_shiftRight _ _
  rw [hmantissa, hexp]
  generalize hn : (max (m.log2 + 1 + e - 53 : ℤ) (-1074) - e).toNat = n
  have hlog : m < 2 ^ (m.log2 + 1) := Nat.lt_log2_self
  refine ⟨Nat.div_pos ?_ (Nat.two_pow_pos n), Nat.div_lt_of_lt_mul ?_, by omega⟩
  · by_cases hsmall : e < -1074 ∧ n = (-1074 - e).toNat
    · rw [hsmall.2]
      exact hmin hsmall.1
    · have hle : n ≤ m.log2 := by omega
      exact (Nat.pow_le_pow_right two_pos hle).trans (Nat.log2_self_le hm.ne')
  · rw [← Nat.pow_add]
    exact hlog.trans_le (Nat.pow_le_pow_right two_pos (by omega))

/-- Such a number is not rounded to zero. -/
theorem roundWithAccuracy_spec (hm : 0 < m) (hmin : e < -1074 → 2 ^ (-1074 - e).toNat ≤ m) :
    ∃ (m' : ℕ) (e' : ℤ) (hm' : 0 < m'),
      roundWithAccuracy .binary64 s m e .exact = .finite s m' e' hm' ∧ m' < 2 ^ 53 ∧
        -1074 ≤ e' := by
  obtain ⟨hpos, -, he⟩ := shift_spec hm hmin
  have hround := hpos.trans_le (le_roundedMantissa (shiftToTargetExponent .binary64 m e .exact).1)
  -- the second shift is only there for a mantissa that was rounded up
  obtain ⟨hpos', hlt', he'⟩ := shift_spec hround fun h => absurd he (not_le.mpr h)
  refine ⟨_, _, hpos', ?_, hlt', he'⟩
  rw [roundWithAccuracy]
  exact dif_neg hpos'.ne'

theorem fields_of_number_zero {b : BitVec spec.numBits} (h : (unpack spec b).number = some 0) :
    unpackExponent b = 0 ∧ unpackMantissa b = 0 := by
  have habs := abs_of_number h
  rw [abs_zero] at habs
  have hsignificand := (mul_eq_zero.mp habs.symm).resolve_right (by positivity)
  have hsum := Nat.cast_eq_zero.mp hsignificand
  have hpow := Nat.two_pow_pos spec.mantissaBitsWithoutImplicit
  rw [significand] at hsum
  split_ifs at hsum with hexp
  · exact ⟨BitVec.eq_of_toNat_eq hexp, BitVec.eq_of_toNat_eq hsum⟩
  · omega

/-- A rounded number other than zero is not stored as zero. -/
theorem number_pack_finite (hm : 0 < m) (hlt : m < 2 ^ 53) (he : -1074 ≤ e) :
    (unpack .binary64 (pack .binary64 (.finite s m e hm))).number ≠ some 0 := by
  intro h
  obtain ⟨hexp, hmantissa⟩ := fields_of_number_zero h
  have hbias : (e + Format.exponentBias .binary64 +
      (Format.mantissaBitsWithoutImplicit .binary64 : ℤ)).toNat = (e + 1023 + 52).toNat := rfl
  unfold pack at hexp hmantissa
  dsimp only at hexp hmantissa
  rw [hbias] at hexp hmantissa
  split_ifs at hexp hmantissa with hinf hnormal
  · rw [packedInfinity, unpackExponent_packComponents] at hexp
    exact absurd hexp (by decide)
  · rw [unpackExponent_packComponents] at hexp
    have hfield := congrArg BitVec.toNat hexp
    rw [BitVec.toNat_ofNat, Nat.mod_eq_of_lt (by omega)] at hfield
    have hzero : (0 : BitVec (Format.exponentBits .binary64)).toNat = 0 := rfl
    omega
  · rw [unpackMantissa_packComponents] at hmantissa
    have hsmall : m < 2 ^ 52 := by
      refine (Nat.log2_lt hm.ne').mp ?_
      have hle := (Nat.log2_lt hm.ne').mpr hlt
      change ¬ m.log2 + 1 = 53 at hnormal
      omega
    have hfield := congrArg BitVec.toNat hmantissa
    rw [BitVec.toNat_ofNat, Nat.mod_eq_of_lt hsmall] at hfield
    exact hm.ne' hfield

theorem exponent_of_unpack {b : BitVec 64} {hm : 0 < m}
    (h : unpack .binary64 b = .finite s m e hm) : -1074 ≤ e := by
  have hbias : (Format.exponentBias .binary64 : ℤ) = 1023 := rfl
  have hbits : (Format.mantissaBitsWithoutImplicit .binary64 : ℤ) = 52 := rfl
  unfold unpack at h
  dsimp only at h
  split_ifs at h with hones hnan hzero hmantissa
  · obtain ⟨-, -, rfl⟩ := UnpackedFloat.finite.inj h
    omega
  · obtain ⟨-, -, rfl⟩ := UnpackedFloat.finite.inj h
    have hfield : (@unpackExponent .binary64 b).toNat ≠ 0 :=
      fun h0 => hzero (BitVec.eq_of_toNat_eq h0)
    omega

/-- What is stored of something that stands for no number stands for none. -/
theorem number_pack_special (hu : u.number = none) :
    (unpack .binary64 (pack .binary64 u)).number ≠ some 0 := by
  intro h
  obtain ⟨hexp, -⟩ := fields_of_number_zero h
  match u with
  | .notANumber => exact absurd hexp (by decide)
  | .infinity s =>
      unfold pack packedInfinity at hexp
      rw [unpackExponent_packComponents] at hexp
      exact absurd hexp (by decide)
  | .zero _ => cases hu
  | .finite .positive _ _ _ => cases hu
  | .finite .negative _ _ _ => cases hu

/-! ### Order -/

theorem compare_swap (u w : UnpackedFloat) : (u.compare w).map Ordering.swap = w.compare u := by
  cases u with
  | notANumber => cases w <;> rfl
  | infinity s => cases w with
    | notANumber => rfl
    | infinity t => cases s <;> cases t <;> rfl
    | zero t => cases s <;> rfl
    | finite t m e hm => cases s <;> rfl
  | zero s => cases w with
    | notANumber => rfl
    | infinity t => cases t <;> rfl
    | zero t => rfl
    | finite t m e hm => cases t <;> rfl
  | finite s m e hm => cases w with
    | notANumber => rfl
    | infinity t => cases t <;> rfl
    | zero t => cases s <;> rfl
    | finite t n f hn => cases s <;> cases t <;>
        simp [UnpackedFloat.compare, Ordering.swap_then, Int.compare_swap, Nat.compare_swap]

end Float.Model.UnpackedFloat

namespace Float.Model

open UnpackedFloat

variable {v w : Float.Model} {r : ℚ}

theorem not_lt_of_le (h : v ≤ w) : ¬ w < v := by
  intro hlt
  have hle : (v.unpack.compare w.unpack).any (·.isLE) = true := h
  have hlt : w.unpack.compare v.unpack = some .lt := eq_of_beq hlt
  rw [← compare_swap, hlt] at hle
  cases hle

theorem unpack_mul (v w : Float.Model) : (v * w).unpack =
    UnpackedFloat.unpack .binary64 (UnpackedFloat.pack .binary64
      (UnpackedFloat.mul .binary64 v.unpack w.unpack)) := rfl

/-- **A product with a number that is not less than one** is not rounded to zero. -/
theorem number_mul_ne_zero (hv : v.unpack.number ≠ some 0) (hw : w.unpack.number = some r)
    (hr : 1 ≤ |r|) : (v * w).unpack.number ≠ some 0 := by
  rw [unpack_mul]
  cases hw' : w.unpack with
  | notANumber => rw [hw'] at hw; cases hw
  | infinity s => rw [hw'] at hw; cases hw
  | zero s =>
      rw [hw'] at hw
      rw [← Option.some.inj hw, abs_zero] at hr
      exact absurd hr (by norm_num)
  | finite s₂ m₂ e₂ hm₂ =>
      cases hv' : v.unpack with
      | notANumber => exact number_pack_special rfl
      | infinity s => exact number_pack_special rfl
      | zero s => exact absurd (by rw [hv']; rfl) hv
      | finite s₁ m₁ e₁ hm₁ =>
          rw [hw'] at hw
          rw [abs_of_number_finite hw] at hr
          have he₁ := exponent_of_unpack hv'
          have hmin : e₁ + e₂ < -1074 → 2 ^ (-1074 - (e₁ + e₂)).toNat ≤ m₁ * m₂ := by
            intro hsmall
            have hpow : (2 : ℚ) ^ (-e₂).toNat * 2 ^ e₂ = 1 := by
              rw [← zpow_natCast, Int.toNat_of_nonneg (by omega), ← zpow_add₀ two_ne_zero]
              simp
            have hone : 2 ^ (-e₂).toNat ≤ m₂ := by
              have hpos : (0 : ℚ) < 2 ^ e₂ := by positivity
              rw [← hpow] at hr
              exact_mod_cast le_of_mul_le_mul_right hr hpos
            calc 2 ^ (-1074 - (e₁ + e₂)).toNat ≤ 2 ^ (-e₂).toNat :=
                  Nat.pow_le_pow_right two_pos (by omega)
              _ ≤ m₂ := hone
              _ ≤ m₁ * m₂ := Nat.le_mul_of_pos_left m₂ hm₁
          obtain ⟨m, e, hm, heq, hlt, he⟩ :=
            roundWithAccuracy_spec (s := s₁ * s₂) (Nat.mul_pos hm₁ hm₂) hmin
          rw [UnpackedFloat.mul, heq]
          exact number_pack_finite hm hlt he

/-- A product with zero is zero. -/
theorem number_zero_mul (hv : v.unpack.number = some 0) (hw : w.unpack.number = some r) :
    (v * w).unpack.number = some 0 := by
  have hzero : ∀ s, (UnpackedFloat.unpack .binary64
      (UnpackedFloat.pack .binary64 (.zero s))).number = some 0 := by
    rintro (_ | _) <;> decide
  obtain ⟨s, hs⟩ := number_eq_zero_iff.mp hv
  rw [unpack_mul, hs]
  cases hw' : w.unpack with
  | notANumber => rw [hw'] at hw; cases hw
  | infinity t => rw [hw'] at hw; cases hw
  | zero t => exact hzero _
  | finite t m e hm => exact hzero _

end Float.Model

/-- The double precision number of the same value. -/
def Float32.Model.toDouble (v : Float32.Model) : Float.Model :=
  .pack <| match v.unpack with
    | .finite s m e _ => .round .binary64 s m e
    | u => u

/-! ### In memory -/

/-- The lowest bytes of a natural number, the lowest one first. -/
def littleEndian : ℕ → ℕ → List (BitVec 8)
  | 0, _ => []
  | n + 1, x => BitVec.ofNat 8 x :: littleEndian n (x / 256)

@[simp] theorem length_littleEndian (n x : ℕ) : (littleEndian n x).length = n := by
  induction n generalizing x with
  | zero => rfl
  | succ n ih => rw [littleEndian, List.length_cons, ih]

namespace Float.Model

/-- The bytes of a double precision number. -/
def bytes (v : Float.Model) : List (BitVec 8) := littleEndian 8 v.toBits.toNat

@[simp] theorem length_bytes (v : Float.Model) : v.bytes.length = 8 := length_littleEndian _ _

end Float.Model

namespace Cells

open Float.Model

variable {M : Cells (BitVec 8)} {i : ℤ} {n k x : ℕ} {v : Float.Model}

/-- The natural number in the `n` bytes from `i` on. -/
def loadNat (M : Cells (BitVec 8)) (i : ℤ) : ℕ → ℕ
  | 0 => 0
  | n + 1 => (M.cell i).toNat + 256 * M.loadNat (i + 1) n

/-- `*(float*)`, at `i` -/
def loadFloat (M : Cells (BitVec 8)) (i : ℤ) : UnpackedFloat :=
  .unpack .binary32 (BitVec.ofNat 32 (M.loadNat i 4))

/-- `*(double*)`, at `i` -/
def loadDouble (M : Cells (BitVec 8)) (i : ℤ) : UnpackedFloat :=
  .unpack .binary64 (BitVec.ofNat 64 (M.loadNat i 8))

theorem loadNat_lt (M : Cells (BitVec 8)) (i : ℤ) (n : ℕ) : M.loadNat i n < 256 ^ n := by
  induction n generalizing i with
  | zero => exact Nat.one_pos
  | succ n ih =>
      have hrest := ih (i + 1)
      have hbyte := (M.cell i).isLt
      rw [loadNat, Nat.pow_succ]
      omega

theorem loadNat_of_holds (h : M.Holds i (littleEndian n x)) : M.loadNat i n = x % 256 ^ n := by
  induction n generalizing i x with
  | zero => rw [Nat.pow_zero, Nat.mod_one]; rfl
  | succ n ih =>
      have hbyte : (BitVec.ofNat 8 x).toNat = x % 256 := BitVec.toNat_ofNat x 8
      have hpow : 256 ^ (n + 1) = 256 * 256 ^ n := Nat.pow_succ'
      rw [loadNat, ih h.2, h.1, hbyte, hpow, Nat.mod_mul]

/-- The first bytes are the low ones. -/
theorem loadNat_low (M : Cells (BitVec 8)) (i : ℤ) (hk : k ≤ n) :
    M.loadNat i k = M.loadNat i n % 256 ^ k := by
  induction k generalizing i n with
  | zero => rw [Nat.pow_zero, Nat.mod_one]; rfl
  | succ k ih =>
      obtain ⟨n, rfl⟩ : ∃ n', n = n' + 1 := ⟨n - 1, by omega⟩
      have hbyte := (M.cell i).isLt
      have hpow : 256 ^ (k + 1) = 256 * 256 ^ k := Nat.pow_succ'
      have hdiv : ((M.cell i).toNat + 256 * M.loadNat (i + 1) n) / 256 = M.loadNat (i + 1) n := by
        omega
      rw [loadNat, loadNat, ih (i + 1) (Nat.le_of_succ_le_succ hk), hpow, Nat.mod_mul, hdiv]
      omega

/-- A double precision number is read back. -/
theorem loadDouble_of_holds (h : M.Holds i v.bytes) : M.loadDouble i = v.unpack := by
  have hlt : v.toBits.toNat < 256 ^ 8 := v.toBits.toBitVec.isLt
  rw [loadDouble, loadNat_of_holds h, Nat.mod_eq_of_lt hlt]
  exact congrArg (UnpackedFloat.unpack .binary64) (BitVec.ofNat_toNat 64 v.toBits.toBitVec)

/-- **Reading a double precision number in single precision** gives the same number for zero only,
whatever is in the memory. -/
theorem sameNumber_iff (M : Cells (BitVec 8)) (i : ℤ) :
    (M.loadFloat i).SameNumber (M.loadDouble i) ↔ (M.loadDouble i).number = some 0 := by
  have hlow : M.loadNat i 4 = M.loadNat i 8 % 2 ^ 32 := M.loadNat_low i (by decide)
  have hlt : M.loadNat i 8 < 2 ^ 64 := M.loadNat_lt i 8
  rw [loadFloat, loadDouble, hlow]
  generalize M.loadNat i 8 = b at hlt
  have hb : (BitVec.ofNat 64 b).toNat = b := Nat.mod_eq_of_lt hlt
  have hb32 : (BitVec.ofNat 32 (b % 2 ^ 32)).toNat = b % 2 ^ 32 := Nat.mod_mod _ _
  constructor
  · rintro ⟨hsome, heq⟩
    obtain ⟨q, hq⟩ := Option.ne_none_iff_exists'.mp hsome
    have hfloat := UnpackedFloat.abs_of_number hq
    have hdouble := UnpackedFloat.abs_of_number (heq ▸ hq)
    rw [UnpackedFloat.toNat_unpackMantissa, UnpackedFloat.toNat_unpackExponent] at hfloat hdouble
    rw [hb32] at hfloat
    rw [hb] at hdouble
    have hzero := UnpackedFloat.low_half_eq_zero rfl rfl rfl rfl (hfloat.symm.trans hdouble)
    rw [hzero, Nat.cast_zero, zero_mul] at hfloat
    rw [← heq, hq, abs_eq_zero.mp hfloat]
  · intro h
    obtain ⟨-, hmantissa⟩ := UnpackedFloat.fields_of_number_zero h
    have hfield := congrArg BitVec.toNat hmantissa
    rw [UnpackedFloat.toNat_unpackMantissa, hb] at hfield
    have hzero : b % 2 ^ 32 = 0 := by
      have hfield : b % 2 ^ 52 = 0 := hfield
      omega
    rw [hzero]
    exact ⟨by decide, h.symm⟩

end Cells
