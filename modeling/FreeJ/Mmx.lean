import FreeJ.Keycodes

/-!
# Registers of Packed Bytes

The MMX registers of 64 bits, each with eight bytes, the first one the lowest; two bytes beside
each other are a word. An instruction works on all the bytes or on all the words at once. The
instructions that the image filters need are here, in the order of operands of the assembler
syntax of the filters turned around: `pand a b` leaves its result in `a`.

## Main results

* `unpacked_pack`: bytes that are unpacked into words, worked on as words and packed again.
* `psrlw_pand`, `psllw_pand`: words are shifted and masked instead of bytes.
-/

namespace FreeJ

/-- A register, by its bytes. -/
abbrev Mmx := Fin 8 → CHAR

namespace Mmx

/-- The words of a register. -/
def words (r : Mmx) (k : Fin 4) : BitVec 16 :=
  r ⟨2 * k.val + 1, by omega⟩ ++ r ⟨2 * k.val, by omega⟩

/-- The register with these words. -/
def ofWords (w : Fin 4 → BitVec 16) : Mmx := fun i =>
  (w ⟨i.val / 2, by omega⟩).extractLsb' (8 * (i.val % 2)) 8

/-- The same byte in all places, as the filters duplicate a byte over a register. -/
def splat (c : CHAR) : Mmx := fun _ => c

/-- The same word in all places. -/
def splatWord (w : BitVec 16) : Mmx := ofWords fun _ => w

/-- An instruction on bytes. -/
def bytewise (f : CHAR → CHAR → CHAR) (a b : Mmx) : Mmx := fun i => f (a i) (b i)

/-- An instruction on words. -/
def wordwise (f : BitVec 16 → BitVec 16 → BitVec 16) (a b : Mmx) : Mmx :=
  ofWords fun k => f (words a k) (words b k)

/-- add with unsigned saturation -/
def addus (x y : CHAR) : CHAR := BitVec.ofNat 8 (min 255 (x.toNat + y.toNat))

/-- subtract with unsigned saturation -/
def subus (x y : CHAR) : CHAR := BitVec.ofNat 8 (x.toNat - y.toNat)

/-- subtract with signed saturation -/
def subs (x y : BitVec 16) : BitVec 16 :=
  BitVec.ofInt 16 (max (-32768) (min 32767 (x.toInt - y.toInt)))

/-- a signed word to a byte, with unsigned saturation -/
def packus (w : BitVec 16) : CHAR := BitVec.ofNat 8 (min 255 w.toInt.toNat)

def paddusb : Mmx → Mmx → Mmx := bytewise addus
def psubusb : Mmx → Mmx → Mmx := bytewise subus
def pand : Mmx → Mmx → Mmx := bytewise (· &&& ·)
def por : Mmx → Mmx → Mmx := bytewise (· ||| ·)
def pxor : Mmx → Mmx → Mmx := bytewise (· ^^^ ·)
def pcmpeqb : Mmx → Mmx → Mmx := bytewise fun x y => if x = y then 0xff else 0
def pmullw : Mmx → Mmx → Mmx := wordwise (· * ·)
def psubsw : Mmx → Mmx → Mmx := wordwise subs
def psrlw (a : Mmx) (n : ℕ) : Mmx := ofWords fun k => words a k >>> n
def psllw (a : Mmx) (n : ℕ) : Mmx := ofWords fun k => words a k <<< n
def psraw (a : Mmx) (n : ℕ) : Mmx := ofWords fun k => (words a k).sshiftRight n

/-- The `k`-th byte of one of the halves. -/
def place (high : Bool) (k : Fin 4) : Fin 8 :=
  if high then ⟨k.val + 4, by omega⟩ else ⟨k.val, by omega⟩

/-- The bytes of one half of the two, one after the other. -/
def unpackbw (high : Bool) (a b : Mmx) : Mmx := fun i =>
  (if i.val % 2 = 0 then a else b) (place high ⟨i.val / 2, by omega⟩)

def punpcklbw : Mmx → Mmx → Mmx := unpackbw false
def punpckhbw : Mmx → Mmx → Mmx := unpackbw true

/-- the words of the two as bytes, with unsigned saturation -/
def packuswb (a b : Mmx) : Mmx := fun i =>
  if h : i.val < 4 then packus (words a ⟨i.val, h⟩) else packus (words b ⟨i.val - 4, by omega⟩)

variable {a b x y : Mmx} {w : Fin 4 → BitVec 16} {i : Fin 8} {k : Fin 4} {n : ℕ}

/-! ### Bytes and words -/

@[simp]
theorem bytewise_apply (f : CHAR → CHAR → CHAR) : bytewise f a b i = f (a i) (b i) := rfl

@[simp]
theorem splat_apply (c : CHAR) : splat c i = c := rfl

/-- The words of a register made of words. -/
@[simp]
theorem words_ofWords (w : Fin 4 → BitVec 16) (k : Fin 4) : words (ofWords w) k = w k := by
  have hodd : (2 * k.val + 1) / 2 = k.val := by omega
  have heven : 2 * k.val / 2 = k.val := by omega
  refine BitVec.eq_of_getLsbD_eq fun j hj => ?_
  simp only [words, ofWords, hodd, heven, BitVec.getLsbD_append, BitVec.getLsbD_extractLsb']
  by_cases h8 : j < 8
  · simp [h8]
  · have hj8 : j - 8 < 8 := by omega
    have hback : 8 + (j - 8) = j := by omega
    simp [h8, hj8, hback]

@[simp]
theorem words_wordwise (f : BitVec 16 → BitVec 16 → BitVec 16) :
    words (wordwise f a b) k = f (words a k) (words b k) := words_ofWords _ k

/-- Bytes that are unpacked with zeros are words. -/
theorem words_unpackbw (high : Bool) (x : Mmx) (k : Fin 4) :
    words (unpackbw high x (splat 0)) k = (x (place high k)).setWidth 16 := by
  have hodd : (2 * k.val + 1) % 2 ≠ 0 := by omega
  have hhalf : (2 * k.val + 1) / 2 = k.val := by omega
  refine BitVec.eq_of_getLsbD_eq fun j hj => ?_
  simp only [words, unpackbw, if_neg hodd, hhalf, Nat.mul_mod_right, Nat.mul_div_cancel_left k.val
    Nat.two_pos, if_true, splat_apply, BitVec.getLsbD_append, BitVec.getLsbD_setWidth]
  by_cases h8 : j < 8
  · simp [h8, hj]
  · simp [h8, hj, BitVec.getLsbD_of_ge _ j (Nat.le_of_not_lt h8)]

/-- **Unpack and pack.** What works on words in the same way in both halves works on the bytes
as words. -/
theorem unpacked_pack {F : Mmx → Mmx → Mmx} {f : BitVec 16 → BitVec 16 → BitVec 16}
    (hF : ∀ a b k, words (F a b) k = f (words a k) (words b k)) (x y : Mmx) (i : Fin 8) :
    packuswb (F (punpcklbw x (splat 0)) (punpcklbw y (splat 0)))
        (F (punpckhbw x (splat 0)) (punpckhbw y (splat 0))) i =
      packus (f ((x i).setWidth 16) ((y i).setWidth 16)) := by
  simp only [packuswb, punpcklbw, punpckhbw]
  by_cases hi : i.val < 4
  · rw [dif_pos hi, hF, words_unpackbw, words_unpackbw]
    simp [place]
  · have hback : i.val - 4 + 4 = i.val := by omega
    rw [dif_neg hi, hF, words_unpackbw, words_unpackbw]
    simp [place, hback]

/-! ### Shifts of bytes -/

/-- The bits of a byte of a register made of words. -/
theorem getLsbD_ofWords {j : ℕ} (hj : j < 8) :
    (ofWords w i).getLsbD j = (w ⟨i.val / 2, by omega⟩).getLsbD (8 * (i.val % 2) + j) := by
  simp [ofWords, hj]

/-- The bits of a word, by its bytes. -/
theorem getLsbD_words {j : ℕ} (hj : j < 8) :
    (words x ⟨i.val / 2, by omega⟩).getLsbD (8 * (i.val % 2) + j) = (x i).getLsbD j := by
  rcases Nat.mod_two_eq_zero_or_one i.val with h | h
  · have hi : (⟨2 * (i.val / 2), by omega⟩ : Fin 8) = i := Fin.ext (by simp; omega)
    have h8 : 8 * 0 + j < 8 := by omega
    simp only [words, h, BitVec.getLsbD_append, h8, hi, if_true]
    rw [Nat.mul_zero, Nat.zero_add]
  · have hi : (⟨2 * (i.val / 2) + 1, by omega⟩ : Fin 8) = i := Fin.ext (by simp; omega)
    have h8 : ¬ 8 * 1 + j < 8 := by omega
    have hback : 8 * 1 + j - 8 = j := by omega
    simp only [words, h, BitVec.getLsbD_append, h8, hi, if_false, hback]

/-- The bits of a byte of ones. -/
theorem getLsbD_ones {j : ℕ} (hj : j < 8) : (0xff : CHAR).getLsbD j = true := by
  rw [show (0xff : CHAR) = BitVec.allOnes 8 from rfl, BitVec.getLsbD_allOnes]
  exact decide_eq_true hj

/-- **Bytes to the right**: words are shifted, and what comes from the byte above is masked. -/
theorem psrlw_pand (x : Mmx) (n : ℕ) (i : Fin 8) :
    pand (psrlw x n) (splat ((0xff : CHAR) >>> n)) i = x i >>> n := by
  refine BitVec.eq_of_getLsbD_eq fun j hj => ?_
  simp only [pand, bytewise_apply, splat_apply, BitVec.getLsbD_and, BitVec.getLsbD_ushiftRight,
    psrlw, getLsbD_ofWords hj]
  by_cases hn : n + j < 8
  · have hadd : n + (8 * (i.val % 2) + j) = 8 * (i.val % 2) + (n + j) := by omega
    rw [hadd, getLsbD_words hn, getLsbD_ones hn, Bool.and_true]
  · rw [BitVec.getLsbD_of_ge _ (n + j) (by omega), BitVec.getLsbD_of_ge (x i) (n + j) (by omega),
      Bool.and_false]

/-- **Bytes to the left.** -/
theorem psllw_pand (x : Mmx) (n : ℕ) (i : Fin 8) :
    pand (psllw x n) (splat ((0xff : CHAR) <<< n)) i = x i <<< n := by
  refine BitVec.eq_of_getLsbD_eq fun j hj => ?_
  have h16 : 8 * (i.val % 2) + j < 16 := by omega
  simp only [pand, bytewise_apply, splat_apply, BitVec.getLsbD_and, BitVec.getLsbD_shiftLeft,
    psllw, getLsbD_ofWords hj, hj, h16, decide_true, Bool.true_and]
  by_cases hn : n ≤ j
  · have hsub : 8 * (i.val % 2) + j - n = 8 * (i.val % 2) + (j - n) := by omega
    have hlo : ¬ 8 * (i.val % 2) + j < n := by omega
    rw [hsub, getLsbD_words (by omega), getLsbD_ones (by omega)]
    simp [hlo, Bool.and_comm]
  · simp [Nat.lt_of_not_le hn]

/-! ### Saturation -/

/-- A word that is not negative as a signed one. -/
theorem packus_of_lt {v : BitVec 16} (h : v.toNat < 32768) :
    packus v = BitVec.ofNat 8 (min 255 v.toNat) := by
  rw [packus, BitVec.toInt_eq_toNat_of_lt (by omega), Int.toNat_natCast]

/-- A negative word is packed to zero. -/
theorem packus_of_le {v : BitVec 16} (h : 32768 ≤ v.toNat) : packus v = 0 := by
  have hv : v.toInt ≤ 0 := by
    rw [BitVec.toInt_eq_toNat_cond, if_neg (by omega)]
    omega
  rw [packus, Int.toNat_of_nonpos hv]
  rfl

/-- What the filters do on words to get rid of the sign. -/
def absWord (v : BitVec 16) : BitVec 16 := subs (v ^^^ v.sshiftRight 15) (v.sshiftRight 15)

/-- The same on registers. -/
def absWords (a : Mmx) : Mmx := psubsw (pxor a (psraw a 15)) (psraw a 15)

theorem words_pxor (a b : Mmx) (k : Fin 4) : words (pxor a b) k = words a k ^^^ words b k := by
  refine BitVec.eq_of_getLsbD_eq fun j hj => ?_
  simp only [words, pxor, bytewise_apply, BitVec.getLsbD_append, BitVec.getLsbD_xor]
  split <;> rfl

theorem words_absWords (a : Mmx) (k : Fin 4) : words (absWords a) k = absWord (words a k) := by
  rw [absWords, psubsw, words_wordwise, words_pxor, psraw, words_ofWords]
  rfl

/-- The absolute value of a word that is not negative. -/
theorem absWord_of_lt {v : BitVec 16} (h : v.toNat < 32768) : absWord v = v := by
  have hsign : v.sshiftRight 15 = 0#16 := by
    apply BitVec.eq_of_toInt_eq
    rw [BitVec.toInt_sshiftRight, BitVec.toInt_eq_toNat_of_lt (by omega), Int.shiftRight_eq_div_pow]
    exact Int.ediv_eq_zero_of_lt (by omega) (by exact_mod_cast h)
  have hv : v.toInt = v.toNat := BitVec.toInt_eq_toNat_of_lt (by omega)
  rw [absWord, hsign, BitVec.xor_zero, subs]
  apply BitVec.eq_of_toInt_eq
  rw [BitVec.toInt_ofInt, hv, BitVec.toInt_zero]
  simp only [Int.bmod]
  omega

/-- The absolute value of a negative word, one less for the least. -/
theorem absWord_of_le {v : BitVec 16} (h : 32768 ≤ v.toNat) :
    (absWord v).toNat = min 32767 (65536 - v.toNat) := by
  have hv : v.toInt = v.toNat - 65536 := by
    rw [BitVec.toInt_eq_toNat_cond, if_neg (by omega)]
    rfl
  have hlt := v.isLt
  have hsign : v.sshiftRight 15 = -1 := by
    apply BitVec.eq_of_toInt_eq
    rw [BitVec.toInt_sshiftRight, hv, Int.shiftRight_eq_div_pow]
    change _ = (-1 : ℤ)
    omega
  have hnot : (v ^^^ (-1 : BitVec 16)).toNat = 65536 - 1 - v.toNat := by
    rw [show (-1 : BitVec 16) = BitVec.allOnes 16 from rfl, BitVec.xor_allOnes, BitVec.toNat_not]
  have hx : (v ^^^ (-1 : BitVec 16)).toInt = 65536 - 1 - v.toNat := by
    rw [BitVec.toInt_eq_toNat_of_lt (by omega), hnot]
    omega
  have hone : (-1 : BitVec 16).toInt = -1 := rfl
  rw [absWord, hsign, subs, hx, hone, BitVec.toNat_ofInt]
  omega

end Mmx

end FreeJ
