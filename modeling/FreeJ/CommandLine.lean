import Mathlib.Algebra.GroupWithZero.Nat
import Mathlib.Data.List.Infix
import FreeJ.CString
import FreeJ.Cells

/-!
# The Layers of the Command Line

`freej.cpp`. `cmdline` collects the files named on the command line in the array
`layer_files`, each with a `#` behind it, and `main` takes them out again and opens a layer
for each. `cli_chars` is counted up by the characters and the separators and counted down by
the characters only, so that `main` reads on behind the last file, one character for each
file it has opened, before it stops.

Indices outside of the array have whatever is in memory there.

## Main results

* `CmdLine.collected`: what `cmdline` leaves in the array.
* `openLayers_encode`: `main` opens the files of the array one by one.
* `layer_list_iff`: the accepted files are opened, and all accesses stay inside of the array,
  if and only if their characters, the separators and once more the separators fit.
-/

namespace FreeJ

/-- `MAX_CLI_CHARS` -/
def MAX_CLI_CHARS : ℤ := 4096

/-- The separator of the files, `#`. -/
def SEP : CHAR := 0x23

/-- `strstr(optarg, ".js")` -/
def isScript (optarg : CString) : Bool :=
  decide ((CString.literal ['.', 'j', 's']).chars <:+: optarg.chars)

/-- The variables of `cmdline` that concern files. -/
structure CmdLine where
  layer_files : Cells CHAR
  cli_chars : ℤ
  /-- The pointer into `layer_files`. -/
  p : ℤ
  javascript : CString

namespace CmdLine

/-- Before the first argument; `memory` is what lies around the array. -/
def init (memory : ℤ → CHAR) : CmdLine where
  layer_files :=
    { cell := fun i => if 0 ≤ i ∧ i < MAX_CLI_CHARS then EOL else memory i
      touched := [] }
  cli_chars := 0
  p := 0
  javascript := ⟨[], by simp⟩

/-- `cmdline`, an argument that is no option. -/
def argument (s : CmdLine) (optarg : CString) : CmdLine :=
  if isScript optarg then { s with javascript := optarg }
  else
    let optlen := optarg.strlen
    if s.cli_chars + optlen < MAX_CLI_CHARS then
      { s with
        layer_files := s.layer_files.write s.p (optarg.chars ++ [SEP, EOL])
        cli_chars := s.cli_chars + (optlen + 1)
        p := s.p + (optlen + 1) }
    else s -- too much files on commandline, list truncated

/-- `cmdline` -/
def cmdline (memory : ℤ → CHAR) (args : List CString) : CmdLine :=
  args.foldl argument (init memory)

/-- `main`, `while(*p!='#' && cli_chars>0) { p++; cli_chars--; }` -/
def scan : ℕ → ℤ → Cells CHAR → ℤ × ℕ × Cells CHAR
  | 0, p, m => (p, 0, m.touch p)
  | cli_chars + 1, p, m =>
    if m.cell p = SEP then (p, cli_chars + 1, m.touch p)
    else scan cli_chars (p + 1) (m.touch p)

/-- The string at `i`, which ends within `n` characters. -/
def stringAt (m : Cells CHAR) (n : ℕ) (i : ℤ) : CString where
  chars := m.readUntil EOL n i
  noEOL := m.notMem_readUntil n i

/-- `main`, create layers requested on commandline: the files that are opened, within a number
of rounds. Opening a file may change its characters but nothing behind them. -/
def openLayers : ℕ → ℕ → ℤ → Cells CHAR → List CString → Option (List CString × Cells CHAR)
  | 0, _, _, _, _ => none
  | rounds + 1, cli_chars, pp, m, opened =>
    if cli_chars = 0 then some (opened, m)
    else
      let (p, cli_chars, m) := scan cli_chars pp m
      if cli_chars = 0 then some (opened, m)
      else
        let m := m.set p EOL
        openLayers rounds cli_chars (p + 1) m (opened ++ [stringAt m (p - pp).toNat pp])

/-- What `main` does with the list that `cmdline` left. -/
def layerList (memory : ℤ → CHAR) (args : List CString) (rounds : ℕ) :
    Option (List CString × Cells CHAR) :=
  let s := cmdline memory args
  openLayers rounds s.cli_chars.toNat 0 s.layer_files []

/-- The arguments that are accepted when `used` characters are taken: all that fit and are no
scripts. -/
def accepted : ℤ → List CString → List CString
  | _, [] => []
  | used, optarg :: args =>
    if isScript optarg then accepted used args
    else if used + optarg.strlen < MAX_CLI_CHARS then
      optarg :: accepted (used + (optarg.strlen + 1)) args
    else accepted used args

/-- The files in the array. -/
def encode (files : List CString) : List CHAR :=
  files.flatMap fun file => file.chars ++ [SEP]

/-- The characters of the files. -/
def charCount (files : List CString) : ℕ := (files.map CString.strlen).sum

variable {files args : List CString} {s t : CmdLine} {m : Cells CHAR}

theorem accepted_subset (used : ℤ) (args : List CString) : accepted used args ⊆ args := by
  induction args generalizing used with
  | nil => exact List.Subset.refl _
  | cons file args ih =>
      rw [accepted]
      split
      · exact List.Subset.trans (ih used) (List.subset_cons_self _ _)
      · split
        · exact List.cons_subset_cons _ (ih _)
        · exact List.Subset.trans (ih used) (List.subset_cons_self _ _)

theorem encode_cons (file : CString) (files : List CString) :
    encode (file :: files) = (file.chars ++ [SEP]) ++ encode files := by
  simp [encode]

theorem length_encode (files : List CString) :
    (encode files).length = charCount files + files.length := by
  induction files with
  | nil => rfl
  | cons file files ih =>
      rw [encode_cons, List.length_append, ih]
      simp only [charCount, List.map_cons, List.sum_cons, CString.strlen, List.length_append,
        List.length_cons, List.length_nil]
      omega

/-! ### Writing the list -/

/-- The array is empty from `cli_chars` on. -/
structure Ready (s : CmdLine) : Prop where
  p : s.p = s.cli_chars
  le : s.cli_chars ≤ MAX_CLI_CHARS
  empty : ∀ i, s.cli_chars ≤ i → i < MAX_CLI_CHARS → s.layer_files.cell i = EOL

/-- Between the states `s` and `t` the files were put into the array. -/
structure Collected (s t : CmdLine) (files : List CString) : Prop where
  ready : t.Ready
  cli_chars : t.cli_chars = s.cli_chars + (encode files).length
  below : ∀ i, i < s.cli_chars → t.layer_files.cell i = s.layer_files.cell i
  holds : t.layer_files.Holds s.cli_chars (encode files)
  touched : ∀ i ∈ t.layer_files.touched, i ∈ s.layer_files.touched ∨
    s.cli_chars ≤ i ∧ i ≤ t.cli_chars
  last : files ≠ [] → t.cli_chars ∈ t.layer_files.touched
  kept : ∀ i ∈ s.layer_files.touched, i ∈ t.layer_files.touched

theorem Collected.refl (h : s.Ready) : Collected s s [] where
  ready := h
  cli_chars := by simp [encode]
  below := fun _ _ => rfl
  holds := trivial
  touched := fun _ hi => .inl hi
  last := fun h => absurd rfl h
  kept := fun _ hi => hi

section Argument

variable {file : CString} (hs : s.Ready) (hfit : s.cli_chars + file.strlen < MAX_CLI_CHARS)
  (hfile : isScript file = false)

include hs hfit hfile

/-- What an argument that is accepted does. -/
theorem argument_eq :
    (s.argument file).layer_files =
        s.layer_files.write s.cli_chars ((file.chars ++ [SEP]) ++ [EOL]) ∧
      (s.argument file).cli_chars = s.cli_chars + (file.strlen + 1) ∧
      (s.argument file).p = s.cli_chars + (file.strlen + 1) := by
  simp [argument, hfile, hfit, hs.p]

theorem argument_holds :
    (s.argument file).layer_files.Holds s.cli_chars (file.chars ++ [SEP]) ∧
      (s.argument file).layer_files.cell (s.argument file).cli_chars = EOL := by
  obtain ⟨harg, hcli, -⟩ := argument_eq hs hfit hfile
  have hw : (s.argument file).layer_files.Holds s.cli_chars ((file.chars ++ [SEP]) ++ [EOL]) := by
    rw [harg]
    exact Cells.write_holds
  obtain ⟨h1, h2, -⟩ := Cells.holds_append.mp hw
  refine ⟨h1, ?_⟩
  rw [hcli]
  simpa [CString.strlen] using h2

theorem argument_cell {i : ℤ} (h : i < s.cli_chars ∨ (s.argument file).cli_chars < i) :
    (s.argument file).layer_files.cell i = s.layer_files.cell i := by
  obtain ⟨harg, hcli, -⟩ := argument_eq hs hfit hfile
  rw [harg, Cells.write_cell_of_notMem]
  rw [hcli] at h
  simp only [List.length_append, List.length_singleton, CString.strlen] at h ⊢
  push_cast
  omega

theorem mem_touched_argument {i : ℤ} :
    i ∈ (s.argument file).layer_files.touched ↔ i ∈ s.layer_files.touched ∨
      s.cli_chars ≤ i ∧ i ≤ (s.argument file).cli_chars := by
  obtain ⟨harg, hcli, -⟩ := argument_eq hs hfit hfile
  rw [harg, Cells.mem_touched_write, hcli]
  simp only [List.length_append, List.length_singleton, CString.strlen]
  push_cast
  exact or_congr_right (by omega)

/-- An argument that is accepted leaves the rest of the array empty. -/
theorem ready_argument : (s.argument file).Ready := by
  obtain ⟨-, hcli, hp⟩ := argument_eq hs hfit hfile
  refine ⟨hp.trans hcli.symm, by omega, fun i h1 h2 => ?_⟩
  by_cases hi : i = (s.argument file).cli_chars
  · rw [hi]
    exact (argument_holds hs hfit hfile).2
  · rw [argument_cell hs hfit hfile (.inr (by omega))]
    exact hs.empty i (by omega) h2

/-- The file is put in front of the others. -/
theorem Collected.cons (h : Collected (s.argument file) t files) :
    Collected s t (file :: files) := by
  obtain ⟨-, hcli, -⟩ := argument_eq hs hfit hfile
  obtain ⟨hholds, -⟩ := argument_holds hs hfit hfile
  have hlen : ((file.chars ++ [SEP]).length : ℤ) = file.strlen + 1 := by simp [CString.strlen]
  have hend := h.cli_chars
  refine ⟨h.ready, ?_, fun i hi => ?_, ?_, fun i hi => ?_, fun _ => ?_, fun i hi => ?_⟩
  · rw [encode_cons, List.length_append]
    push_cast
    omega
  · rw [h.below i (by omega), argument_cell hs hfit hfile (.inl hi)]
  · rw [encode_cons, Cells.holds_append, hlen, ← hcli]
    exact ⟨hholds.congr fun j _ h2 => h.below j (by omega), h.holds⟩
  · obtain hi | hi := h.touched i hi
    · obtain hi | hi := (mem_touched_argument hs hfit hfile).mp hi
      · exact .inl hi
      · exact .inr (by omega)
    · exact .inr (by omega)
  · by_cases hf : files = []
    · subst hf
      have hlast : t.cli_chars = (s.argument file).cli_chars := by simp [hend, encode]
      refine h.kept _ ((mem_touched_argument hs hfit hfile).mpr (.inr ?_))
      omega
    · exact h.last hf
  · exact h.kept i ((mem_touched_argument hs hfit hfile).mpr (.inl hi))

end Argument

/-- **What `cmdline` leaves in the array**: the files it accepted, each with its separator,
and nothing else. -/
theorem collected (hs : s.Ready) (args : List CString) :
    Collected s (args.foldl argument s) (accepted s.cli_chars args) := by
  induction args generalizing s with
  | nil => exact .refl hs
  | cons file args ih =>
      rw [List.foldl_cons, accepted]
      by_cases hjs : isScript file = true
      · have harg : s.argument file = { s with javascript := file } := by simp [argument, hjs]
        have h := @ih { s with javascript := file } ⟨hs.p, hs.le, hs.empty⟩
        rw [if_pos hjs, harg]
        exact ⟨h.ready, h.cli_chars, h.below, h.holds, h.touched, h.last, h.kept⟩
      · rw [Bool.not_eq_true] at hjs
        by_cases hfit : s.cli_chars + file.strlen < MAX_CLI_CHARS
        · rw [hjs, if_neg (by simp), if_pos hfit]
          have hready := ready_argument hs hfit hjs
          have := ih hready
          rw [(argument_eq hs hfit hjs).2.1] at this
          exact this.cons hs hfit hjs
        · have harg : s.argument file = s := by simp [argument, hjs, hfit]
          rw [hjs, if_neg (by simp), if_neg hfit, harg]
          exact ih hs

/-! ### Reading the list -/

/-- What `main` finds when it looks for a separator: it reads on until it is at one or has
counted `cli_chars` down. -/
structure Scanned (cli_chars : ℕ) (pp : ℤ) (m : Cells CHAR) (p : ℤ) (left : ℕ)
    (m' : Cells CHAR) : Prop where
  cell : m'.cell = m.cell
  count : p - pp + left = cli_chars
  le : pp ≤ p
  before : ∀ i, pp ≤ i → i < p → m.cell i ≠ SEP
  stop : left = 0 ∨ m.cell p = SEP
  touched : ∀ i, i ∈ m'.touched ↔ i ∈ m.touched ∨ pp ≤ i ∧ i ≤ p

theorem scan_spec (cli_chars : ℕ) (pp : ℤ) (m : Cells CHAR) :
    Scanned cli_chars pp m (scan cli_chars pp m).1 (scan cli_chars pp m).2.1
      (scan cli_chars pp m).2.2 := by
  induction cli_chars generalizing pp m with
  | zero =>
      refine ⟨rfl, by simp [scan], Int.le_refl _, fun i h1 h2 => ?_, .inl rfl, fun i => ?_⟩
      · simp only [scan] at h2
        omega
      · rw [scan, Cells.mem_touched_touch, or_comm]
        exact or_congr_right (by omega)
  | succ n ih =>
      rw [scan]
      by_cases hs : m.cell pp = SEP
      · rw [if_pos hs]
        refine ⟨rfl, by simp, Int.le_refl _, fun i h1 h2 => ?_, .inr hs, fun i => ?_⟩
        · simp only [] at h2
          omega
        · rw [Cells.mem_touched_touch, or_comm]
          exact or_congr_right (by omega)
      · rw [if_neg hs]
        have h := ih (pp + 1) (m.touch pp)
        have hcount := h.count
        have hle := h.le
        refine ⟨h.cell, by omega, by omega, fun i h1 h2 => ?_, h.stop, fun i => ?_⟩
        · by_cases hi : i = pp
          · rwa [hi]
          · exact h.before i (by omega) h2
        · rw [h.touched, Cells.mem_touched_touch]
          constructor
          · rintro ((hi | hi) | hi)
            · exact .inr (by omega)
            · exact .inl hi
            · exact .inr (by omega)
          · rintro (hi | hi)
            · exact .inl (.inr hi)
            · by_cases hip : i = pp
              · exact .inl (.inl hip)
              · exact .inr (by omega)

/-- A file is found with its separator. -/
theorem Scanned.file {file : CString} {rest : ℕ} {pp p : ℤ} {left : ℕ} {m' : Cells CHAR}
    (h : Scanned (file.strlen + rest) pp m p left m') (hrest : rest ≠ 0)
    (hsep : SEP ∉ file.chars) (hfile : m.Holds pp (file.chars ++ [SEP])) :
    p = pp + file.strlen ∧ left = rest := by
  obtain ⟨hchars, hend, -⟩ := Cells.holds_append.mp hfile
  have hcount := h.count
  have hle := h.le
  push_cast at hcount
  -- not behind the separator, and so not before it either
  have h1 : p ≤ pp + file.strlen := by
    by_contra hlt
    exact h.before (pp + file.strlen) (by omega) (by omega) hend
  have hstop : m.cell p = SEP := h.stop.resolve_left (by omega)
  have h2 : ¬ p < pp + file.strlen := by
    intro hlt
    exact hsep (hstop ▸ hchars.mem hle hlt)
  omega

/-- The reader keeps the accesses it made. -/
theorem openLayers_touched {rounds cli_chars : ℕ} {pp : ℤ} {opened out : List CString}
    {m' : Cells CHAR} (h : openLayers rounds cli_chars pp m opened = some (out, m')) {i : ℤ}
    (hi : i ∈ m.touched) : i ∈ m'.touched := by
  induction rounds generalizing cli_chars pp m opened with
  | zero => cases h
  | succ n ih =>
      have hs := scan_spec cli_chars pp m
      simp only [openLayers] at h
      split at h
      · cases h
        exact hi
      · split at h
        · cases h
          exact (hs.touched i).mpr (.inl hi)
        · exact ih h (List.mem_cons_of_mem _ ((hs.touched i).mpr (.inl hi)))

/-- More rounds do not change the outcome. -/
theorem openLayers_mono {rounds cli_chars : ℕ} {pp : ℤ} {opened : List CString}
    {r : List CString × Cells CHAR} (k : ℕ)
    (h : openLayers rounds cli_chars pp m opened = some r) :
    openLayers (k + rounds) cli_chars pp m opened = some r := by
  induction rounds generalizing cli_chars pp m opened with
  | zero => cases h
  | succ n ih =>
      rw [← Nat.add_assoc]
      simp only [openLayers] at h ⊢
      split at h
      · rename_i h0
        rw [if_pos h0]
        exact h
      · rename_i h0
        rw [if_neg h0]
        split at h
        · rename_i h1
          rw [if_pos h1]
          exact h
        · rename_i h1
          rw [if_neg h1]
          exact ih h

/-- **One round**: the file at the pointer is opened, and its separator is overwritten, so that
the string ends there. -/
theorem openLayers_file {file : CString} {rest : ℕ} (hrest : rest ≠ 0) {pp : ℤ}
    (opened : List CString) (hsep : SEP ∉ file.chars) (hm : m.Holds pp (file.chars ++ [SEP])) :
    ∃ m' : Cells CHAR,
      (∀ rounds, openLayers (rounds + 1) (file.strlen + rest) pp m opened =
        openLayers rounds rest (pp + file.strlen + 1) m' (opened ++ [file])) ∧
      (∀ i, i ≠ pp + file.strlen → m'.cell i = m.cell i) ∧
      ∀ i, i ∈ m'.touched ↔ i ∈ m.touched ∨ pp ≤ i ∧ i ≤ pp + file.strlen := by
  have hs := scan_spec (file.strlen + rest) pp m
  obtain ⟨hp, hleft⟩ := hs.file (by omega) hsep hm
  generalize hscan : scan (file.strlen + rest) pp m = r at hs hp hleft
  obtain ⟨p, left, m1⟩ := r
  simp only [] at hs hp hleft
  subst hp hleft
  have hcell : ∀ i, i ≠ pp + file.strlen →
      (m1.set (pp + file.strlen) EOL).cell i = m.cell i := by
    intro i hi
    simp only [Cells.set_cell, Function.update_of_ne hi, hs.cell]
  have hstr : stringAt (m1.set (pp + file.strlen) EOL) file.strlen pp = file := by
    refine CString.ext (Cells.readUntil_eq ?_ file.noEOL)
    refine (Cells.holds_append.mp hm).1.congr fun i _ h2 => hcell i ?_
    simp only [CString.strlen]
    omega
  refine ⟨m1.set (pp + file.strlen) EOL, fun n => ?_, hcell, fun i => ?_⟩
  · have hn : (pp + (file.strlen : ℤ) - pp).toNat = file.strlen := by omega
    simp only [openLayers, hscan, hn]
    rw [if_neg (by omega), if_neg (by omega), hstr]
  · rw [Cells.mem_touched_set, hs.touched]
    constructor
    · rintro (hi | hi | hi)
      · exact .inr (by omega)
      · exact .inl hi
      · exact .inr (by omega)
    · rintro (hi | hi)
      · exact .inr (.inl hi)
      · exact .inr (.inr (by omega))

/-- **Reading the files back.** One round opens one file, and then the characters are used up
but for one for each file. -/
theorem openLayers_encode {rest : ℕ} (hrest : rest ≠ 0) {pp : ℤ} (opened : List CString)
    (hsep : ∀ file ∈ files, SEP ∉ file.chars) (hm : m.Holds pp (encode files)) :
    ∃ m' : Cells CHAR,
      (∀ rounds, openLayers (files.length + rounds) (charCount files + rest) pp m opened =
        openLayers rounds rest (pp + (encode files).length) m' (opened ++ files)) ∧
      (∀ i, pp + (encode files).length ≤ i → m'.cell i = m.cell i) ∧
      ∀ i, i ∈ m'.touched ↔
        i ∈ m.touched ∨ pp ≤ i ∧ i < pp + (encode files).length := by
  induction files generalizing pp m opened with
  | nil =>
      refine ⟨m, fun rounds => by simp [charCount, encode], fun _ _ => rfl, fun i => ?_⟩
      simp only [encode, List.flatMap_nil, List.length_nil]
      exact (or_iff_left (by omega)).symm
  | cons file files ih =>
      rw [encode_cons, Cells.holds_append] at hm
      obtain ⟨hfile, hfiles⟩ := hm
      have hlen : ((file.chars ++ [SEP]).length : ℤ) = file.strlen + 1 := by simp [CString.strlen]
      rw [hlen] at hfiles
      have hcount : charCount (file :: files) + rest =
          file.strlen + (charCount files + rest) := by
        simp only [charCount, List.map_cons, List.sum_cons]
        omega
      obtain ⟨m2, hround, hcell, htouched2⟩ := openLayers_file
        (show charCount files + rest ≠ 0 by omega) opened (hsep file List.mem_cons_self) hfile
      have hholds : m2.Holds (pp + file.strlen + 1) (encode files) := by
        rw [Int.add_assoc]
        exact hfiles.congr fun i h1 _ => hcell i (by omega)
      obtain ⟨m', hloop, hbehind, htouched⟩ := ih (opened ++ [file])
        (fun f hf => hsep f (List.mem_cons_of_mem _ hf)) hholds
      have hend : pp + ((encode (file :: files)).length : ℤ) =
          pp + file.strlen + 1 + (encode files).length := by
        rw [encode_cons, List.length_append]
        push_cast
        omega
      rw [hend]
      refine ⟨m', fun rounds => ?_, fun i hi => ?_, fun i => ?_⟩
      · rw [List.length_cons, Nat.add_right_comm, hcount, hround, hloop]
        simp
      · rw [hbehind i hi, hcell i (by omega)]
      · rw [htouched, htouched2, or_assoc]
        refine or_congr_right ?_
        omega

/-- **Behind the last file** `main` reads on for as many characters as there were files, and
stops if no separator is among these. -/
theorem openLayers_rest {rest : ℕ} (hrest : rest ≠ 0) {pp : ℤ} (opened : List CString)
    (hm : ∀ i, pp ≤ i → i ≤ pp + rest → m.cell i ≠ SEP) (rounds : ℕ) :
    ∃ m', openLayers (rounds + 1) rest pp m opened = some (opened, m') ∧
      ∀ i, i ∈ m'.touched ↔ i ∈ m.touched ∨ pp ≤ i ∧ i ≤ pp + rest := by
  have hs := scan_spec rest pp m
  have hcount := hs.count
  have hle := hs.le
  have hstop : (scan rest pp m).2.1 = 0 :=
    hs.stop.resolve_right (hm _ hle (by omega))
  refine ⟨(scan rest pp m).2.2, ?_, fun i => ?_⟩
  · simp only [openLayers]
    rw [if_neg hrest, if_pos hstop]
  · rw [hs.touched]
    exact or_congr_right (by omega)

/-- What the first look for a separator touches stays touched. -/
theorem openLayers_scanned {rounds cli_chars : ℕ} {pp : ℤ} {opened out : List CString}
    {m' : Cells CHAR} (h : openLayers rounds cli_chars pp m opened = some (out, m'))
    (hcli : cli_chars ≠ 0) {i : ℤ} (hi : i ∈ (scan cli_chars pp m).2.2.touched) :
    i ∈ m'.touched := by
  cases rounds with
  | zero => cases h
  | succ n =>
      simp only [openLayers] at h
      rw [if_neg hcli] at h
      split at h
      · cases h
        exact hi
      · exact openLayers_touched h (List.mem_cons_of_mem _ hi)

theorem ready_init (memory : ℤ → CHAR) : (init memory).Ready :=
  ⟨rfl, by simp [init, MAX_CLI_CHARS], fun _ h1 h2 => if_pos ⟨h1, h2⟩⟩

section Collected

variable {memory : ℤ → CHAR} (hc : Collected (init memory) s files)
  (hsep : ∀ file ∈ files, SEP ∉ file.chars)

include hc

theorem Collected.cli_chars_eq : s.cli_chars = (encode files).length :=
  hc.cli_chars.trans (Int.zero_add _)

theorem Collected.toNat_eq : s.cli_chars.toNat = charCount files + files.length := by
  rw [hc.cli_chars_eq, Int.toNat_natCast, length_encode]

theorem Collected.holds_zero : s.layer_files.Holds 0 (encode files) := hc.holds

/-- `cmdline` touches the list and the character behind it. -/
theorem Collected.written {i : ℤ} (hi : i ∈ s.layer_files.touched) :
    0 ≤ i ∧ i ≤ (encode files).length := by
  have h := (hc.touched i hi).resolve_left (by simp [init])
  rw [hc.cli_chars_eq] at h
  exact h

include hsep

/-- A list that leaves room for its separators once more is read back inside of the array. -/
theorem Collected.fits (hfit : ((encode files).length : ℤ) + files.length < MAX_CLI_CHARS) :
    ∃ rounds m, openLayers rounds s.cli_chars.toNat 0 s.layer_files [] = some (files, m) ∧
      m.Within 0 MAX_CLI_CHARS := by
  have hempty := hc.ready.empty
  rw [hc.cli_chars_eq] at hempty
  rw [hc.toNat_eq]
  by_cases hf : files = []
  · subst hf
    refine ⟨1, s.layer_files, rfl, fun i hi => ?_⟩
    have := hc.written hi
    omega
  · have hrest : files.length ≠ 0 := by simpa using hf
    obtain ⟨m1, hloop, hbehind, htouched⟩ :=
      openLayers_encode hrest [] hsep hc.holds_zero
    have hnone : ∀ i, 0 + ((encode files).length : ℤ) ≤ i →
        i ≤ 0 + ((encode files).length : ℤ) + files.length → m1.cell i ≠ SEP := by
      intro i h1 h2
      rw [hbehind i h1, hempty i (by omega) (by omega)]
      decide
    obtain ⟨m2, hlast, htouched'⟩ := openLayers_rest hrest ([] ++ files) hnone 0
    refine ⟨files.length + 1, m2, (hloop 1).trans hlast, fun i hi => ?_⟩
    obtain hi | hi := (htouched' i).mp hi
    · obtain hi | hi := (htouched i).mp hi
      · have := hc.written hi
        omega
      · omega
    · omega

/-- A list that does not makes `main` or `cmdline` touch the byte behind the array. -/
theorem Collected.overruns {rounds : ℕ} {out : List CString}
    (h : openLayers rounds s.cli_chars.toNat 0 s.layer_files [] = some (out, m))
    (hover : MAX_CLI_CHARS ≤ ((encode files).length : ℤ) + files.length) :
    MAX_CLI_CHARS ∈ m.touched := by
  have hle := hc.ready.le
  have hempty := hc.ready.empty
  rw [hc.cli_chars_eq] at hle hempty
  rw [hc.toNat_eq] at h
  have hf : files ≠ [] := by
    rintro rfl
    simp [encode, MAX_CLI_CHARS] at hover
  have hrest : files.length ≠ 0 := by simpa using hf
  obtain ⟨m1, hloop, hbehind, htouched⟩ := openLayers_encode hrest [] hsep hc.holds_zero
  have h' := (hloop rounds).symm.trans (openLayers_mono files.length h)
  refine openLayers_scanned h' hrest ?_
  have hs := scan_spec files.length (0 + (encode files).length) m1
  rw [hs.touched]
  by_cases hT : ((encode files).length : ℤ) = MAX_CLI_CHARS
  · -- the terminator of the last file was written there
    refine .inl ((htouched _).mpr (.inl ?_))
    rw [← hT, ← hc.cli_chars_eq]
    exact hc.last hf
  · have hcount := hs.count
    have hle' := hs.le
    refine .inr ⟨by omega, ?_⟩
    by_contra hlt
    -- a separator inside of the empty part of the array
    have hcell := hs.stop.resolve_left (by omega)
    rw [hbehind _ hle', hempty _ (by omega) (by omega)] at hcell
    exact absurd hcell (by decide)

end Collected

/-- **The list of files on the command line.** `main` opens exactly the files that `cmdline`
accepted, in order, and all accesses of the two stay inside of the array, if and only if the
files with their separators, and as many characters more as there are files, are fewer than
the array has. -/
theorem layer_list_iff (memory : ℤ → CHAR) (args : List CString)
    (hargs : ∀ file ∈ args, SEP ∉ file.chars) :
    (∃ rounds m, layerList memory args rounds = some (accepted 0 args, m) ∧
        m.Within 0 MAX_CLI_CHARS) ↔
      (encode (accepted 0 args)).length + (accepted 0 args).length < MAX_CLI_CHARS := by
  have hc : Collected (init memory) (cmdline memory args) (accepted 0 args) :=
    collected (ready_init memory) args
  have hsep : ∀ file ∈ accepted 0 args, SEP ∉ file.chars :=
    fun file hf => hargs file (accepted_subset 0 args hf)
  constructor
  · rintro ⟨rounds, m, h, hw⟩
    by_contra hover
    have := hw _ (hc.overruns hsep h (by omega))
    omega
  · exact hc.fits hsep

/-- Two short names. -/
def twoFiles : List CString := [.literal ['a'], .literal ['b', 'c']]

theorem accepted_twoFiles : accepted 0 twoFiles = twoFiles := by
  simp only [twoFiles, accepted]
  decide

/-- Both are opened. -/
theorem layer_list_two :
    ∃ rounds m, layerList (fun _ => EOL) twoFiles rounds = some (twoFiles, m) ∧
      m.Within 0 MAX_CLI_CHARS := by
  have h := (layer_list_iff (fun _ => EOL) twoFiles (by decide)).mpr
    (by rw [accepted_twoFiles]; decide)
  rwa [accepted_twoFiles] at h

/-- A name of `n` characters. -/
def longName (n : ℕ) : CString where
  chars := List.replicate n 0x61
  noEOL := fun h => absurd (List.eq_of_mem_replicate h) (by decide)

theorem strlen_longName (n : ℕ) : (longName n).strlen = n := List.length_replicate

theorem accepted_longName {n : ℕ} (h : (n : ℤ) < MAX_CLI_CHARS) :
    accepted 0 [longName n] = [longName n] := by
  have hjs : isScript (longName n) = false := by
    simp only [isScript, decide_eq_false_iff_not]
    intro h
    have hdot : (0x2e : CHAR) ∈ (longName n).chars := h.subset (by decide)
    exact absurd (List.eq_of_mem_replicate hdot) (by decide)
  rw [accepted, hjs, if_neg (by simp), if_pos (by rw [strlen_longName]; omega), accepted]

/-- A name of 4095 characters is accepted, and its terminator is written behind the array. -/
theorem layer_list_overrun :
    ¬ ∃ rounds m, layerList (fun _ => EOL) [longName 4095] rounds =
      some (accepted 0 [longName 4095], m) ∧ m.Within 0 MAX_CLI_CHARS := by
  generalize hn : (4095 : ℕ) = n
  rintro ⟨rounds, m, h, hw⟩
  have hfit : (n : ℤ) < MAX_CLI_CHARS := by
    simp only [MAX_CLI_CHARS]
    omega
  have hc := collected (ready_init fun _ => EOL) [longName n]
  rw [show (init fun _ => EOL).cli_chars = 0 from rfl, accepted_longName hfit] at hc
  have hsep : ∀ file ∈ [longName n], SEP ∉ file.chars := by
    intro file hfile hmem
    rw [List.mem_singleton.mp hfile] at hmem
    exact absurd (List.eq_of_mem_replicate hmem) (by decide)
  have hover : MAX_CLI_CHARS ≤
      ((encode [longName n]).length : ℤ) + [longName n].length := by
    simp only [length_encode, charCount, List.map_cons, List.map_nil, List.sum_cons,
      List.sum_nil, strlen_longName, List.length_cons, List.length_nil, MAX_CLI_CHARS]
    omega
  exact absurd (hw _ (hc.overruns hsep h hover)).2 (Int.lt_irrefl _)

end CmdLine

end FreeJ
