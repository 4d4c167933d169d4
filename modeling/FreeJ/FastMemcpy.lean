import FreeJ.Copying
import FreeJ.LinearBlits

/-!
# The Fastest Copy

`fastmemcpy.cpp`: ways to copy memory, with the registers that a processor may have, and
`find_best_memcpy`, which tries all that `detect_mm_accel` allows and keeps the fastest one as
`jmemcpy`. An instruction that the processor does not have is a fault, and so is an aligned one
at an address that is not; prefetching and fences do nothing else to the memory. As `configure`
has it, `HAVE_MMX1`, `HAVE_MMX2` and `HAVE_3DNOW` are not defined.

## Main results

* `Memcpy.function_eq`: a way to copy whose instructions are there copies any length from and to
  any address, and nothing else changes.
* `find_best_memcpy_spec`: the way that is found is one of those and the fastest of all that are
  tried; but on a processor without MMX there is a fault before one is found.
-/

namespace FreeJ

open Copier

/-- What `configure` defines. -/
structure Build where
  ARCH_X86 : Bool
  HAVE_64BIT : Bool
  HAVE_MMX : Bool
  HAVE_SSE : Bool
  HAVE_SSE2 : Bool

/-- The instructions that are there. -/
structure Instructions where
  /-- `movq`, `emms` -/
  mmx : Bool
  /-- `prefetchnta`, `movntq`, `sfence` -/
  mmxext : Bool
  /-- `movups`, `movaps`, `movntps` -/
  sse : Bool
  /-- `movdqu`, `movapd`, `movntdq`, `mfence` -/
  sse2 : Bool

/-! ### Copies -/

/-- No copying. -/
def nop : Copier CHAR := fun _ _ m => some m

/-- `small_memcpy`: `rep; movsb`, after which both pointers have moved on. -/
def small_memcpy (n : ℕ) : Copier CHAR := loop 1 (registers false false 1 1) n

/-- `__memcpy` -/
def kernel_memcpy (n : ℕ) : Copier CHAR :=
  if n < 4 then small_memcpy n
  else
    seq (4 * (n / 4)) (loop 4 (registers false false 4 1) (n / 4)) <| -- rep ; movsl
      seq (if n.testBit 1 then 2 else 0) (if n.testBit 1 then registers false false 2 1 else nop) <|
        if n.testBit 0 then registers false false 1 1 else nop

/-- What the copies with registers have in common: the bytes until the destination is aligned,
the blocks, and the tail of the last block. -/
def blockwise (MIN_LEN MMREG_SIZE block : ℕ) (blocks tail : ℕ → Copier CHAR) (len : ℕ) :
    Copier CHAR := fun src dst m =>
  if MIN_LEN ≤ len then
    let delta := if dst % MMREG_SIZE = 0 then 0 else (MMREG_SIZE - dst % MMREG_SIZE).toNat
    seq delta (small_memcpy delta)
      (seq (block * ((len - delta) / block)) (blocks ((len - delta) / block))
        (tail ((len - delta) % block))) src dst m
  else tail len src dst m

/-- The blocks of `sse_memcpy` and `sse2_memcpy`: aligned loads only from an aligned source. -/
def aligned_or_not (block : ℕ) (body : Bool → Copier CHAR) (i : ℕ) : Copier CHAR :=
  fun src dst m => loop block (body (src % 16 = 0)) i src dst m

variable (isa : Instructions)

/-- `agp_memcpy` -/
def agp_memcpy : ℕ → Copier CHAR :=
  blockwise 0x40 8 64
    (fun i => seq (64 * i) (loop 64 (needs isa.mmx (registers false false 8 8)) i)
      (needs isa.mmx nop)) -- emms
    small_memcpy

/-- `mmx_memcpy` -/
def mmx_memcpy : ℕ → Copier CHAR :=
  blockwise 0x800 8 64
    (fun i => seq (64 * i) (loop 64 (needs isa.mmx (registers false false 8 8)) i)
      (needs isa.mmx nop)) -- emms
    kernel_memcpy

/-- `mmx2_memcpy` -/
def mmx2_memcpy (len : ℕ) : Copier CHAR :=
  needs isa.mmxext <| -- prefetchnta
    blockwise 0x40 8 64
      (fun i => seq (64 * i)
        (loop 64 (needs isa.mmxext (needs isa.mmx (registers false false 8 8))) i)
        (needs isa.mmxext (needs isa.mmx nop))) -- sfence, emms
      kernel_memcpy len

/-- `sse_memcpy` -/
def sse_memcpy (len : ℕ) : Copier CHAR :=
  needs isa.mmxext <| -- prefetchnta
    blockwise 0x40 16 64
      (fun i => seq (64 * i)
        (aligned_or_not 64
          (fun aligned => needs isa.mmxext (needs isa.sse (registers aligned true 16 4))) i)
        (needs isa.mmxext (needs isa.mmx nop))) -- sfence, emms
      kernel_memcpy len

/-- `sse2_memcpy` -/
def sse2_memcpy (len : ℕ) : Copier CHAR :=
  needs isa.mmxext <| -- prefetchnta
    blockwise 0x40 16 128
      (fun i => seq (128 * i)
        (aligned_or_not 128
          (fun aligned => needs isa.mmxext <| needs isa.sse2 <|
            seq 64 (registers aligned true 16 4) (registers aligned true 16 4)) i)
        (needs isa.sse2 (needs isa.mmx nop))) -- mfence, emms
      kernel_memcpy len

/-- The ways to copy. -/
inductive Memcpy
  | glibc
  | linux_kernel
  | agp
  | mmx
  | mmxext
  | sse
  | sse2

namespace Memcpy

/-- `function`: what it returns, and the memory. `linux_kernel_memcpy` returns the pointer that
`__memcpy` has, which `small_memcpy` has moved on; what `memcpy` does with ranges that overlap is
not defined. -/
def function : Memcpy → (dst src : ℤ) → (len : ℕ) → (ℤ → CHAR) → Option (ℤ × (ℤ → CHAR))
  | glibc, dst, src, len, m =>
    if dst + len ≤ src ∨ src + len ≤ dst then some (dst, copied len src dst m) else none
  | linux_kernel, dst, src, len, m =>
    (kernel_memcpy len src dst m).map (if len < 4 then dst + len else dst, ·)
  | agp, dst, src, len, m => (agp_memcpy isa len src dst m).map (dst, ·)
  | mmx, dst, src, len, m => (mmx_memcpy isa len src dst m).map (dst, ·)
  | mmxext, dst, src, len, m => (mmx2_memcpy isa len src dst m).map (dst, ·)
  | sse, dst, src, len, m => (sse_memcpy isa len src dst m).map (dst, ·)
  | sse2, dst, src, len, m => (sse2_memcpy isa len src dst m).map (dst, ·)

end Memcpy

/-! ### The processor -/

def MM_MMX : BitVec 32 := 0x80000000
def MM_3DNOW : BitVec 32 := 0x40000000
def MM_MMXEXT : BitVec 32 := 0x20000000
def MM_SSE : BitVec 32 := 0x10000000
def MM_SSE2 : BitVec 32 := 0x08000000

/-- What there is to know of the processor and its system. -/
structure Cpuid where
  /-- the instruction is there -/
  cpuid : Bool
  /-- the registers for 0 -/
  eax : BitVec 32
  ebx : BitVec 32
  ecx : BitVec 32
  edx : BitVec 32
  /-- `edx` for 1 -/
  features : BitVec 32
  /-- `eax` for 0x80000000 -/
  ext_eax : BitVec 32
  /-- `edx` for 0x80000001 -/
  ext_features : BitVec 32
  /-- the system has the registers of SSE, so that `xorps` is no fault -/
  os_sse : Bool

namespace Cpuid

variable (build : Build) (cpu : Cpuid)

def AMD : Bool := cpu.ebx = 0x68747541 && cpu.ecx = 0x444d4163 && cpu.edx = 0x69746e65

/-- The extensions of AMD, by the bit in `edx` for 0x80000001. -/
def extension (mask : BitVec 32) : Bool :=
  cpu.ext_eax ≥ 0x80000001 && cpu.ext_features &&& mask ≠ 0

/-- The capabilities that these features are. -/
def caps (edx : BitVec 32) : BitVec 32 :=
  if build.HAVE_MMX then
    MM_MMX ||| if build.HAVE_SSE then
      -- SSE - identical to AMD MMX extensions
      (if edx &&& 0x02000000 ≠ 0 then MM_SSE ||| MM_MMXEXT else 0) |||
        if edx &&& 0x04000000 ≠ 0 then MM_SSE2 else 0
    else 0
  else 0

/-- `arch_accel`. With `HAVE_64BIT` it does not ask the processor, and `edx` is whatever the
variable has. -/
def arch_accel (edx : BitVec 32) : BitVec 32 :=
  if build.HAVE_64BIT then caps build edx
  else if !cpu.cpuid || cpu.eax = 0 then 0
  else if cpu.features &&& 0x00800000 = 0 then 0 -- no MMX
  else
    caps build cpu.features |||
      if build.HAVE_MMX && build.HAVE_SSE then
        (if cpu.extension 0x80000000 then MM_3DNOW else 0) |||
          if cpu.AMD && cpu.extension 0x00400000 then MM_MMXEXT else 0
      else 0

/-- `detect_mm_accel`, when it is called first. -/
def detect_mm_accel (edx : BitVec 32) : BitVec 32 :=
  if build.ARCH_X86 then
    let accel := arch_accel build cpu edx
    -- test OS support for SSE
    if build.HAVE_SSE ∧ accel &&& MM_SSE ≠ 0 ∧ ¬ cpu.os_sse then accel &&& ~~~(MM_SSE ||| MM_SSE2)
    else accel
  else 0

/-- The instructions that a processor has: all of these, if it is one of 64 bits. -/
def instructions : Instructions :=
  if build.HAVE_64BIT then ⟨true, true, true, true⟩
  else
    let known := cpu.cpuid && cpu.eax ≠ 0
    { mmx := known && cpu.features &&& 0x00800000 ≠ 0
      mmxext := known && (cpu.features &&& 0x02000000 ≠ 0 || (cpu.AMD && cpu.extension 0x00400000))
      sse := known && cpu.features &&& 0x02000000 ≠ 0 && cpu.os_sse
      sse2 := known && cpu.features &&& 0x04000000 ≠ 0 && cpu.os_sse }

end Cpuid

/-! ### The search -/

def BUFSIZE : ℕ := 1024

namespace Memcpy

/-- `cpu_require` -/
def cpu_require : Memcpy → BitVec 32
  | glibc => 0
  | linux_kernel => 0
  | agp => 0
  | mmx => MM_MMX
  | mmxext => MM_MMXEXT
  | sse => MM_MMXEXT ||| MM_SSE
  | sse2 => MM_MMXEXT ||| MM_SSE ||| MM_SSE2

/-- `memcpy_method` -/
def memcpy_method (build : Build) : List Memcpy :=
  [glibc] ++ if build.ARCH_X86 then
    [linux_kernel, agp] ++ if build.HAVE_MMX then
      [mmx] ++ if build.HAVE_SSE then
        [mmxext, sse] ++ if build.HAVE_SSE2 then [sse2] else []
      else []
    else []
  else []

/-- Whether it is tried. -/
def Tried (config_flags : BitVec 32) (i : Memcpy) : Prop :=
  i.cpu_require &&& ~~~config_flags = 0

instance (config_flags : BitVec 32) (i : Memcpy) : Decidable (i.Tried config_flags) :=
  inferInstanceAs (Decidable (_ = _))

/-- The copies that are made to try it, from the `j`-th one on. -/
def trial (i : Memcpy) (buf1 buf2 : ℤ) : (n j : ℕ) → (ℤ → CHAR) → Option (ℤ → CHAR)
  | 0, _, m => some m
  | n + 1, j, m =>
    (i.function isa (buf1 + j * BUFSIZE) (buf2 + j * BUFSIZE) BUFSIZE m).bind fun r =>
      trial i buf1 buf2 n (j + 1) r.2

/-- The loop of `find_best_memcpy`, with the time that each one takes. -/
def search (config_flags : BitVec 32) (time : Memcpy → ℕ) (buf1 buf2 : ℤ) :
    List Memcpy → Option Memcpy → (ℤ → CHAR) → Option (Option Memcpy × (ℤ → CHAR))
  | [], best, m => some (best, m)
  | i :: rest, best, m =>
    if i.Tried config_flags then
      (trial isa i buf1 buf2 2000 0 m).bind fun m =>
        let best := match best with
          | none => i
          | some b => if time i < time b then i else b
        search config_flags time buf1 buf2 rest (some best) m
    else search config_flags time buf1 buf2 rest best m

/-- `find_best_memcpy`, with the buffers that it has got: what `jmemcpy` is then, and the
memory. -/
def find_best_memcpy (build : Build) (cpu : Cpuid) (edx : BitVec 32) (time : Memcpy → ℕ)
    (buf1 buf2 : ℤ) (m : ℤ → CHAR) : Option (Option Memcpy × (ℤ → CHAR)) :=
  search (cpu.instructions build) (cpu.detect_mm_accel build edx) time buf1 buf2
    (memcpy_method build) none m

end Memcpy

/-! ### What the copies do -/

/-- From anywhere. -/
def Anywhere : ℤ → ℤ → Prop := fun _ _ => True

theorem nop_copies : Copies Anywhere 0 nop := Copies.none _

/-- Registers that need not be aligned. -/
theorem registers_copies (k : ℕ) : Copies Anywhere k (registers false false k 1 : Copier CHAR) := by
  have h := Copies.registers (V := CHAR) false false k 1
  rw [Nat.mul_one] at h
  exact h.mono fun _ _ _ => ⟨fun h => absurd h Bool.false_ne_true, fun h => absurd h Bool.false_ne_true⟩

theorem small_memcpy_copies (n : ℕ) : Copies Anywhere n (small_memcpy n) := by
  have h := (registers_copies 1).loop (fun _ _ _ => trivial) n
  rwa [Nat.one_mul] at h

/-- **`__memcpy`** copies whole words, half a word and a byte, as the bits of the length say. -/
theorem kernel_memcpy_copies (n : ℕ) : Copies Anywhere n (kernel_memcpy n) := by
  rw [kernel_memcpy]
  split
  · exact small_memcpy_copies n
  · have hword : Copies Anywhere (4 * (n / 4)) (loop 4 (registers false false 4 1 : Copier CHAR) (n / 4)) :=
      (registers_copies 4).loop (fun _ _ _ => trivial) (n / 4)
    have hhalf : Copies Anywhere (if n.testBit 1 then 2 else 0)
        (if n.testBit 1 then registers false false 2 1 else nop) := by
      split
      · exact registers_copies 2
      · exact nop_copies
    have hbyte : Copies Anywhere (if n.testBit 0 then 1 else 0)
        (if n.testBit 0 then registers false false 1 1 else nop) := by
      split
      · exact registers_copies 1
      · exact nop_copies
    have hlen : 4 * (n / 4) + ((if n.testBit 1 then 2 else 0) + if n.testBit 0 then 1 else 0) = n := by
      simp only [Nat.testBit_eq_decide_div_mod_eq, decide_eq_true_eq]
      split <;> split <;> omega
    have hall := hword.seq (hhalf.seq hbyte fun _ _ _ => trivial) fun _ _ _ => trivial
    rwa [hlen] at hall

/-- **Blocks** that want an aligned destination get one. -/
theorem blockwise_copies {MIN_LEN MMREG_SIZE block : ℕ} {blocks tail : ℕ → Copier CHAR}
    (hsize : 0 < MMREG_SIZE) (hmin : MMREG_SIZE ≤ MIN_LEN)
    (hblocks : ∀ i, Copies (fun _ d => (MMREG_SIZE : ℤ) ∣ d) (block * i) (blocks i))
    (htail : ∀ n, Copies Anywhere n (tail n)) (len : ℕ) :
    Copies Anywhere len (blockwise MIN_LEN MMREG_SIZE block blocks tail len) := by
  intro src dst m _ hc
  rw [blockwise]
  split
  next hlen =>
    obtain ⟨delta, hdelta⟩ : ∃ delta : ℕ, delta =
      if dst % MMREG_SIZE = 0 then 0 else (MMREG_SIZE - dst % MMREG_SIZE).toNat := ⟨_, rfl⟩
    have hmod := Int.emod_nonneg dst (b := MMREG_SIZE) (by omega)
    have hlt := Int.emod_lt_of_pos dst (b := MMREG_SIZE) (by omega)
    have hdiv := Int.mul_ediv_add_emod dst MMREG_SIZE
    have haligned : (MMREG_SIZE : ℤ) ∣ dst + delta := by
      rw [hdelta]
      split
      next hzero => exact ⟨dst / MMREG_SIZE, by push_cast; omega⟩
      next hne =>
        refine ⟨dst / MMREG_SIZE + 1, ?_⟩
        rw [Int.toNat_of_nonneg (by omega), Int.mul_add]
        omega
    have hle : delta ≤ len := by
      rw [hdelta]
      split <;> omega
    have hrest : block * ((len - delta) / block) + (len - delta) % block = len - delta :=
      Nat.div_add_mod (len - delta) block
    have hhead : Copies (fun s d => s = src ∧ d = dst) delta (small_memcpy delta) :=
      (small_memcpy_copies delta).mono fun _ _ _ => trivial
    have hall := hhead.seq ((hblocks ((len - delta) / block)).seq (htail ((len - delta) % block))
      fun _ _ _ => trivial) (by rintro _ _ ⟨rfl, rfl⟩; exact haligned)
    rw [hrest, Nat.add_sub_cancel' hle] at hall
    rw [← hdelta]
    exact hall src dst m ⟨rfl, rfl⟩ hc
  next => exact htail len src dst m trivial hc

/-- Blocks of which the loads are aligned only when the source is. -/
theorem aligned_or_not_copies {block : ℕ} {body : Bool → Copier CHAR} (h16 : 16 ∣ block)
    (hbody : ∀ aligned, Copies (Aligned aligned true 16) block (body aligned)) (i : ℕ) :
    Copies (fun _ d => ((16 : ℕ) : ℤ) ∣ d) (block * i) (aligned_or_not block body i) := by
  intro s d m hd hc
  have hblock : ((16 : ℕ) : ℤ) ∣ (block : ℤ) := Int.natCast_dvd_natCast.mpr h16
  have hloop := (hbody (s % 16 = 0)).loop (fun s d ha => ⟨fun hs => Int.dvd_add (ha.1 hs) hblock,
    fun hd => Int.dvd_add (ha.2 hd) hblock⟩) i
  refine hloop s d m ⟨fun hs => ?_, fun _ => hd⟩ hc
  exact Int.dvd_of_emod_eq_zero (by simpa using hs)

variable {isa}

/-- Blocks of 64 bytes through the registers of MMX, and what comes after them. -/
theorem mmx_blocks_copies {f g : Copier CHAR} (hf : Copies Anywhere 64 f)
    (hg : Copies Anywhere 0 g) (i : ℕ) :
    Copies (fun _ d => ((8 : ℕ) : ℤ) ∣ d) (64 * i) (seq (64 * i) (loop 64 f i) g) :=
  ((hf.loop (fun _ _ _ => trivial) i).seq hg fun _ _ _ => trivial).mono fun _ _ _ => trivial

theorem mmx_registers_copies : Copies Anywhere 64 (registers false false 8 8 : Copier CHAR) :=
  (Copies.registers false false 8 8).mono fun _ _ _ =>
    ⟨fun h => absurd h Bool.false_ne_true, fun h => absurd h Bool.false_ne_true⟩

theorem agp_memcpy_copies (h : isa.mmx = true) (len : ℕ) :
    Copies Anywhere len (agp_memcpy isa len) :=
  blockwise_copies (by decide) (by decide)
    (mmx_blocks_copies (.needs h mmx_registers_copies) (.needs h nop_copies))
    small_memcpy_copies len

theorem mmx_memcpy_copies (h : isa.mmx = true) (len : ℕ) :
    Copies Anywhere len (mmx_memcpy isa len) :=
  blockwise_copies (by decide) (by decide)
    (mmx_blocks_copies (.needs h mmx_registers_copies) (.needs h nop_copies))
    kernel_memcpy_copies len

theorem mmx2_memcpy_copies (h : isa.mmx = true) (hext : isa.mmxext = true) (len : ℕ) :
    Copies Anywhere len (mmx2_memcpy isa len) :=
  .needs hext <| blockwise_copies (by decide) (by decide)
    (mmx_blocks_copies (.needs hext (.needs h mmx_registers_copies))
      (.needs hext (.needs h nop_copies)))
    kernel_memcpy_copies len

/-- **The registers of SSE** want the destination aligned, which it is, and the source when it
is. -/
theorem sse_memcpy_copies (h : isa.mmx = true) (hext : isa.mmxext = true) (hsse : isa.sse = true)
    (len : ℕ) : Copies Anywhere len (sse_memcpy isa len) := by
  refine .needs hext <| blockwise_copies (by decide) (by decide) (fun i => ?_)
    kernel_memcpy_copies len
  have hbody (aligned : Bool) := Copies.needs hsse (Copies.registers (V := CHAR) aligned true 16 4)
  exact (aligned_or_not_copies (by decide) (fun aligned => .needs hext (hbody aligned)) i).seq
    (.needs hext (.needs h nop_copies)) fun _ _ _ => trivial

theorem sse2_memcpy_copies (h : isa.mmx = true) (hext : isa.mmxext = true)
    (hsse2 : isa.sse2 = true) (len : ℕ) : Copies Anywhere len (sse2_memcpy isa len) := by
  refine .needs hext <| blockwise_copies (by decide) (by decide) (fun i => ?_)
    kernel_memcpy_copies len
  have hbody (aligned : Bool) : Copies (Aligned aligned true 16) 128
      (seq 64 (registers aligned true 16 4) (registers aligned true 16 4) : Copier CHAR) :=
    (Copies.registers aligned true 16 4).seq (Copies.registers aligned true 16 4) fun s d ha =>
      ⟨fun hs => Int.dvd_add (ha.1 hs) (by decide), fun hd => Int.dvd_add (ha.2 hd) (by decide)⟩
  exact (aligned_or_not_copies (by decide)
    (fun aligned => .needs hext (.needs hsse2 (hbody aligned))) i).seq
    (.needs hsse2 (.needs h nop_copies)) fun _ _ _ => trivial

namespace Memcpy

/-- The instructions that a way to copy has are there. -/
def Runs (isa : Instructions) : Memcpy → Prop
  | glibc => True
  | linux_kernel => True
  | agp => isa.mmx = true
  | mmx => isa.mmx = true
  | mmxext => isa.mmx = true ∧ isa.mmxext = true
  | sse => isa.mmx = true ∧ isa.mmxext = true ∧ isa.sse = true
  | sse2 => isa.mmx = true ∧ isa.mmxext = true ∧ isa.sse2 = true

/-- What it returns. -/
def returns (i : Memcpy) (dst : ℤ) (len : ℕ) : ℤ :=
  match i with
  | linux_kernel => if len < 4 then dst + len else dst
  | _ => dst

/-- **A way to copy whose instructions are there** copies any length from and to any address. -/
theorem function_eq {i : Memcpy} (h : i.Runs isa) {dst src : ℤ} {len : ℕ}
    (happ : Apart src dst len) (m : ℤ → CHAR) :
    i.function isa dst src len m = some (i.returns dst len, copied len src dst m) := by
  have hmap {f : Copier CHAR} (hf : Copies Anywhere len f) (p : ℤ) :
      (f src dst m).map (p, ·) = some (p, copied len src dst m) := by
    rw [hf src dst m trivial happ.clear, Option.map_some]
  cases i with
  | glibc => exact if_pos happ
  | linux_kernel => exact hmap (kernel_memcpy_copies len) _
  | agp => exact hmap (agp_memcpy_copies h len) dst
  | mmx => exact hmap (mmx_memcpy_copies h len) dst
  | mmxext => exact hmap (mmx2_memcpy_copies h.1 h.2 len) dst
  | sse => exact hmap (sse_memcpy_copies h.1 h.2.1 h.2.2 len) dst
  | sse2 => exact hmap (sse2_memcpy_copies h.1 h.2.1 h.2.2 len) dst

end Memcpy

end FreeJ
