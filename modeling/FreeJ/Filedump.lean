import FreeJ.CString
import FreeJ.Loops

/-!
# The Name of a Recording

`VideoEncoder::set_filedump` opens a file to record to. If there is a file of the given name
already, it puts `-1` in front of the extension, then `-2`, and so on, until there is none. Each
number is put into the name that has the earlier ones already, in a buffer of 512 characters, and
the extension is looked for with `strrchr`, which returns a null pointer if there is none.

The strings are what stands in the buffers; a copy that does not end inside its buffer, and the
difference to a null pointer, have no result.

## Main results

* `set_filedump_ends`: the loop ends, whatever files there are.
* `filedump_right_iff`: when the name is the given one or the first with a number that is free.
-/

namespace FreeJ

open Loops

/-- The index of the last `c`. -/
def lastIndexOf (c : CHAR) : List CHAR → Option ℕ
  | [] => none
  | x :: xs =>
    match lastIndexOf c xs with
    | some i => some (i + 1)
    | none => if x = c then some 0 else none

/-- `strrchr` -/
def CString.strrchr (s : CString) (c : CHAR) : Option ℕ := lastIndexOf c s.chars

/-- The files that there are, which names could be created, and what `strerror` says. -/
structure Disk where
  files : List CString
  creatable : CString → Bool
  strerror : CString

/-- `VideoEncoder`: where it records to; the file that is open is known by its name. -/
structure Filedump where
  name : CString
  filedump : CString
  filedump_fd : Option CString
  write_to_disk : Bool
  deriving DecidableEq, Repr

/-- `sizeof(filedump)` and `sizeof(tmp)` -/
def FILEDUMP_SIZE : ℕ := 512

/-- `"-%d"` -/
def numberText (filename_number : ℕ) : CString :=
  .literal ('-' :: Nat.toDigits 10 filename_number)

/-- A round of the loop: `filedump` with the number in front of its extension. -/
def appendNumber (filename_number : ℕ) (filedump : CString) : Option CString :=
  (filedump.strrchr CHAR_DOT).bind fun lenght_without_extension =>
    let tmp := filedump.take lenght_without_extension ++ numberText filename_number ++
      filedump.drop lenght_without_extension
    if tmp.strlen < FILEDUMP_SIZE then some tmp else none

/-- The name in `filedump` is that of a file. -/
def Disk.Taken (disk : Disk) (filedump : Option CString) : Prop :=
  ∃ file ∈ disk.files, filedump = some file

instance (disk : Disk) : DecidablePred disk.Taken := fun filedump =>
  inferInstanceAs (Decidable (∃ file ∈ disk.files, filedump = some file))

/-- `while(fp)`, for less than `n` rounds -/
def freeName (disk : Disk) (n : ℕ) (filedump : Option CString) : Option (Option CString) :=
  whileDo (fun k filedump => filedump.bind (appendNumber (k + 1))) disk.Taken n 0 filedump

/-- What follows the loop. -/
def Filedump.record (e : Filedump) (disk : Disk) (messages : List Message) (filedump : CString) :
    Bool × Filedump × List Message :=
  if disk.creatable filedump then
    (true, { e with filedump := filedump, filedump_fd := some filedump, write_to_disk := true },
      messages ++ [.act (.literal "Encoder ".toList ++ e.name ++
        .literal " recording to file ".toList ++ filedump)])
  else
    (false, { e with filedump := filedump, filedump_fd := none },
      messages ++ [.error (.literal "can't record to file (null): ".toList ++ disk.strerror)])

/-- `VideoEncoder::set_filedump`, with less than `n` rounds of its loop. -/
def Filedump.set_filedump (e : Filedump) (disk : Disk) (filename : Option CString) (n : ℕ) :
    Option (Option (Bool × Filedump × List Message)) :=
  let messages := if e.write_to_disk then -- stop current filedump
      [.act (.literal "Encoder ".toList ++ e.name ++
        .literal " stopped recording to file ".toList ++ e.filedump)]
    else []
  let e := if e.write_to_disk then { e with filedump_fd := none, write_to_disk := false } else e
  match filename with
  | none => some (some (false, e, messages))
  | some filename =>
    (freeName disk n (if filename.strlen < FILEDUMP_SIZE then some filename else none)).map
      fun filedump => filedump.map (e.record disk messages)

/-! ### The extension -/

variable {c : CHAR} {xs ys : List CHAR} {s t : CString} {i m n : ℕ}

theorem lastIndexOf_eq_none_iff : lastIndexOf c xs = none ↔ c ∉ xs := by
  induction xs with
  | nil => simp [lastIndexOf]
  | cons x xs ih =>
      rw [lastIndexOf, List.mem_cons, not_or, ← ih]
      cases lastIndexOf c xs with
      | none => simp [eq_comm]
      | some i => simp

/-- The last `c` is in front of what has none. -/
theorem lastIndexOf_append (h : c ∉ ys) : lastIndexOf c (xs ++ c :: ys) = some xs.length := by
  induction xs with
  | nil => rw [List.nil_append, lastIndexOf, lastIndexOf_eq_none_iff.mpr h]; simp
  | cons x xs ih => rw [List.cons_append, lastIndexOf, ih, List.length_cons]

/-- Behind the last `c` there is no other. -/
theorem exists_of_lastIndexOf (h : lastIndexOf c xs = some i) :
    ∃ us vs, xs = us ++ c :: vs ∧ us.length = i ∧ c ∉ vs := by
  induction xs generalizing i with
  | nil => cases h
  | cons x xs ih =>
      rw [lastIndexOf] at h
      cases hrest : lastIndexOf c xs with
      | none =>
          simp only [hrest] at h
          split_ifs at h with hx
          obtain rfl := Option.some.inj h
          exact ⟨[], xs, by rw [hx, List.nil_append], rfl, lastIndexOf_eq_none_iff.mp hrest⟩
      | some j =>
          simp only [hrest] at h
          obtain rfl := Option.some.inj h
          obtain ⟨us, vs, rfl, hlen, hvs⟩ := ih hrest
          exact ⟨x :: us, vs, rfl, by rw [List.length_cons, hlen], hvs⟩

/-! ### The numbers -/

/-- `'-'` -/
def CHAR_DASH : CHAR := 0x2d

/-- The characters of a decimal number. -/
theorem toDigits_code {n : ℕ} {d : Char} (hd : d ∈ Nat.toDigits 10 n) :
    48 ≤ d.toNat ∧ d.toNat ≤ 57 := by
  have hdigit := Nat.isDigit_of_mem_toDigits (by decide) (Nat.le_refl 10) hd
  simp only [Char.isDigit, Bool.and_eq_true, decide_eq_true_eq] at hdigit
  exact ⟨hdigit.1, hdigit.2⟩

/-- A number in a name is a dash and digits. -/
theorem numberText_chars (n : ℕ) : (numberText n).chars =
    CHAR_DASH :: (Nat.toDigits 10 n).map fun d => BitVec.ofNat 8 d.toNat := by
  change (('-' :: Nat.toDigits 10 n).map fun d => BitVec.ofNat 8 d.toNat).filter (· ≠ EOL) = _
  rw [List.map_cons, List.filter_cons, if_pos (by decide)]
  congr 1
  refine List.filter_eq_self.mpr fun x hx => ?_
  obtain ⟨d, hd, rfl⟩ := List.mem_map.mp hx
  have hcode := toDigits_code hd
  refine decide_eq_true fun heq => ?_
  have hnat := congrArg BitVec.toNat heq
  simp only [BitVec.toNat_ofNat, EOL] at hnat
  rw [Nat.mod_eq_of_lt (by omega)] at hnat
  simp at hnat
  omega

/-- The digits are neither dash nor point. -/
theorem notMem_digits (hc : c.toNat < 48) (n : ℕ) :
    c ∉ (Nat.toDigits 10 n).map fun d => BitVec.ofNat 8 d.toNat := by
  intro hmem
  obtain ⟨d, hd, rfl⟩ := List.mem_map.mp hmem
  have hcode := toDigits_code hd
  rw [BitVec.toNat_ofNat, Nat.mod_eq_of_lt (by omega)] at hc
  omega

theorem count_dash_numberText (n : ℕ) : (numberText n).chars.count CHAR_DASH = 1 := by
  rw [numberText_chars, List.count_cons_self, List.count_eq_zero_of_not_mem
    (notMem_digits (by decide) n)]

/-- `"-1-2"` and so on, up to a number -/
def numbers : ℕ → CString
  | 0 => .literal []
  | m + 1 => numbers m ++ numberText (m + 1)

theorem count_dash_numbers (m : ℕ) : (numbers m).chars.count CHAR_DASH = m := by
  induction m with
  | zero => rfl
  | succ m ih => rw [numbers, CString.append_chars, List.count_append, ih, count_dash_numberText]

theorem le_strlen_numbers (m : ℕ) : m ≤ (numbers m).strlen := by
  have hcount := List.count_le_length (a := CHAR_DASH) (l := (numbers m).chars)
  rwa [count_dash_numbers] at hcount

/-! ### The loop -/

variable {filename x : CString} {text : CString} {disk : Disk}

/-- The name with a text in front of its extension. -/
def insertText (filename text : CString) : CString :=
  match filename.strrchr CHAR_DOT with
  | some i => filename.take i ++ text ++ filename.drop i
  | none => filename ++ text

theorem insertText_some (h : filename.strrchr CHAR_DOT = some i) (text : CString) :
    insertText filename text = filename.take i ++ text ++ filename.drop i := by
  rw [insertText, h]

theorem insertText_empty (filename : CString) : insertText filename (.literal []) = filename := by
  apply CString.ext
  rw [insertText]
  cases filename.strrchr CHAR_DOT with
  | none => exact List.append_nil _
  | some i =>
      change filename.chars.take i ++ [] ++ filename.chars.drop i = filename.chars
      rw [List.append_nil, List.take_append_drop]

theorem count_dash_insertText (filename text : CString) :
    (insertText filename text).chars.count CHAR_DASH =
      filename.chars.count CHAR_DASH + text.chars.count CHAR_DASH := by
  rw [insertText]
  cases filename.strrchr CHAR_DOT with
  | none => exact List.count_append
  | some i =>
      change (filename.chars.take i ++ text.chars ++ filename.chars.drop i).count CHAR_DASH = _
      rw [List.count_append, List.count_append, Nat.add_right_comm, ← List.count_append,
        List.take_append_drop]

theorem strlen_insertText (filename text : CString) :
    (insertText filename text).strlen = filename.strlen + text.strlen := by
  rw [insertText]
  cases filename.strrchr CHAR_DOT with
  | none => exact List.length_append
  | some i =>
      change (filename.chars.take i ++ text.chars ++ filename.chars.drop i).length = _
      rw [List.length_append, List.length_append, Nat.add_right_comm, ← List.length_append,
        List.take_append_drop]
      rfl

/-- A round puts its number behind the text that is in the name already. -/
theorem appendNumber_insertText (h : filename.strrchr CHAR_DOT = some i)
    (text : CString) (n : ℕ) :
    appendNumber n (insertText filename text) =
      if (insertText filename (text ++ numberText n)).strlen < FILEDUMP_SIZE then
        some (insertText filename (text ++ numberText n))
      else none := by
  obtain ⟨us, vs, hsplit, rfl, hvs⟩ := exists_of_lastIndexOf h
  have hchars : ∀ text, (insertText filename text).chars = us ++ text.chars ++ CHAR_DOT :: vs := by
    intro text
    rw [insertText_some h]
    change filename.chars.take us.length ++ text.chars ++ filename.chars.drop us.length = _
    rw [hsplit, List.take_left, List.drop_left]
  have hindex : (insertText filename text).strrchr CHAR_DOT =
      some (us ++ text.chars).length := by
    rw [CString.strrchr, hchars]
    exact lastIndexOf_append hvs
  have htmp : (insertText filename text).take (us ++ text.chars).length ++ numberText n ++
      (insertText filename text).drop (us ++ text.chars).length =
        insertText filename (text ++ numberText n) := by
    apply CString.ext
    rw [hchars]
    change (insertText filename text).chars.take _ ++ (numberText n).chars ++
      (insertText filename text).chars.drop _ = _
    rw [hchars, List.take_left, List.drop_left, CString.append_chars, List.append_assoc us]
  rw [appendNumber, hindex, Option.bind_some]
  simp only [htmp]

/-- The names that the loop tries. -/
def tried (filename : CString) (m : ℕ) : Option CString :=
  rounds (fun k filedump => filedump.bind (appendNumber (k + 1))) (some filename) m

/-- **What the loop tries**: the numbers are in the name one behind the other. -/
theorem tried_eq_some (h : tried filename m = some x) :
    x = insertText filename (numbers m) ∧
      (0 < m → filename.strrchr CHAR_DOT ≠ none ∧ x.strlen < FILEDUMP_SIZE) := by
  induction m generalizing x with
  | zero =>
      obtain rfl := Option.some.inj h
      exact ⟨(insertText_empty filename).symm, fun hlt => absurd hlt (Nat.lt_irrefl 0)⟩
  | succ m ih =>
      obtain ⟨y, hy, happend⟩ := Option.bind_eq_some_iff.mp h
      obtain ⟨rfl, hdot⟩ := ih hy
      cases hi : filename.strrchr CHAR_DOT with
      | none =>
          have hm : m = 0 := by
            by_contra hm
            exact (hdot (Nat.pos_of_ne_zero hm)).1 hi
          rw [hm, numbers, insertText_empty, appendNumber, hi] at happend
          cases happend
      | some i =>
          rw [appendNumber_insertText hi (numbers m)] at happend
          split_ifs at happend with hfits
          obtain rfl := Option.some.inj happend
          exact ⟨rfl, fun _ => ⟨Option.some_ne_none i, hfits⟩⟩

theorem tried_one (hi : filename.strrchr CHAR_DOT ≠ none) (hlen : filename.strlen < 500) :
    tried filename 1 = some (insertText filename (numberText 1)) := by
  obtain ⟨i, hi⟩ := Option.ne_none_iff_exists'.mp hi
  have hround := appendNumber_insertText hi (numbers 0) 1
  have hone : numbers 0 ++ numberText 1 = numberText 1 := CString.ext (List.nil_append _)
  have htwo : (numberText 1).strlen = 2 := by decide
  have hmax : FILEDUMP_SIZE = 512 := rfl
  rw [hone, numbers, insertText_empty, if_pos (by rw [strlen_insertText]; omega)] at hround
  exact hround

variable (disk filename) in
/-- What the loop gives, if there is room for the given name. -/
theorem freeName_iff {t : Option CString} : (∃ n, freeName disk n (some filename) = some t) ↔
    ∃ m, t = tried filename m ∧ ¬ disk.Taken t ∧ ∀ j, j < m → disk.Taken (tried filename j) :=
  whileDo_ends_iff

/-- **The loop ends**, whatever files there are: the names get longer, and the buffer does not. -/
theorem set_filedump_ends (e : Filedump) (disk : Disk) (filename : Option CString) :
    ∃ n r, e.set_filedump disk filename n = some r := by
  have hstop : ∀ start, ¬ disk.Taken (rounds
      (fun k filedump => filedump.bind (appendNumber (k + 1))) start FILEDUMP_SIZE) := by
    rintro (_ | filename) ⟨file, -, htaken⟩
    · have hnone : ∀ m, rounds (fun k filedump => Option.bind filedump (appendNumber (k + 1)))
          none m = none := by
        intro m
        induction m with
        | zero => rfl
        | succ m ih => rw [rounds, ih]; rfl
      rw [hnone] at htaken
      cases htaken
    · obtain ⟨heq, hfits⟩ := tried_eq_some htaken
      have hlt := (hfits (by decide)).2
      rw [heq, strlen_insertText] at hlt
      have hle := le_strlen_numbers FILEDUMP_SIZE
      omega
  cases filename with
  | none => exact ⟨0, _, rfl⟩
  | some filename =>
      obtain ⟨n, t, ht⟩ := exists_whileDo (hstop (if filename.strlen < FILEDUMP_SIZE then
        some filename else none))
      exact ⟨n, _, congrArg (Option.map _) ht⟩

/-! ### The right name -/

/-- The given name if it is free, else the first with a number that is. -/
def Wanted (files : List CString) (filename name : CString) : Prop :=
  name ∉ files ∧
    (filename ∉ files ∧ name = filename ∨
      filename ∈ files ∧ ∃ N, 1 ≤ N ∧ name = insertText filename (numberText N) ∧
        ∀ M, 1 ≤ M → M < N → insertText filename (numberText M) ∈ files)

/-- A new file of the wanted name is opened, and is recorded to if that can be. -/
def Filedump.Right (e : Filedump) (disk : Disk) (filename : CString) : Prop :=
  ∃ n ret e' messages,
    e.set_filedump disk (some filename) n = some (some (ret, e', messages)) ∧
      Wanted disk.files filename e'.filedump ∧
      e'.filedump_fd = (if disk.creatable e'.filedump then some e'.filedump else none) ∧
      e'.write_to_disk = disk.creatable e'.filedump ∧ ret = disk.creatable e'.filedump

/-- The file is opened with the name that the loop gives. -/
theorem right_iff_freeName (e : Filedump) (disk : Disk) (hlen : filename.strlen < FILEDUMP_SIZE) :
    e.Right disk filename ↔
      ∃ n x, freeName disk n (some filename) = some (some x) ∧ Wanted disk.files filename x := by
  have hset : ∀ n, e.set_filedump disk (some filename) n =
      (freeName disk n (some filename)).map fun filedump => filedump.map
        ((if e.write_to_disk then { e with filedump_fd := none, write_to_disk := false }
          else e).record disk (if e.write_to_disk then
            [.act (.literal "Encoder ".toList ++ e.name ++
              .literal " stopped recording to file ".toList ++ e.filedump)]
          else [])) := by
    intro n
    simp only [Filedump.set_filedump, if_pos hlen]
  constructor
  · rintro ⟨n, ret, e', messages, hrun, hwanted, -⟩
    rw [hset] at hrun
    obtain ⟨o, ho, hrun⟩ := Option.map_eq_some_iff.mp hrun
    obtain ⟨x, rfl, hrecord⟩ := Option.map_eq_some_iff.mp hrun
    have hname : e'.filedump = x := by
      rw [Filedump.record] at hrecord
      split at hrecord <;> (obtain ⟨-, rfl, -⟩ := hrecord; rfl)
    exact ⟨n, x, ho, hname ▸ hwanted⟩
  · rintro ⟨n, x, hx, hwanted⟩
    have hstopped : (if e.write_to_disk then { e with filedump_fd := none, write_to_disk := false }
        else e).write_to_disk = false := by
      cases hdisk : e.write_to_disk <;> simp [hdisk]
    have hrun := hset n
    rw [hx, Option.map_some, Option.map_some, Filedump.record] at hrun
    cases hcreate : disk.creatable x with
    | true =>
        rw [if_pos hcreate] at hrun
        exact ⟨n, true, _, _, hrun, hwanted, (if_pos hcreate).symm, hcreate.symm, hcreate.symm⟩
    | false =>
        rw [if_neg (by simp [hcreate])] at hrun
        exact ⟨n, false, _, _, hrun, hwanted, (if_neg (by simp [hcreate])).symm,
          hstopped.trans hcreate.symm, hcreate.symm⟩

theorem taken_iff : disk.Taken (some x) ↔ x ∈ disk.files := by
  constructor
  · rintro ⟨file, hfile, heq⟩
    exact Option.some.inj heq ▸ hfile
  · exact fun hx => ⟨x, hx, rfl⟩

/-- The loop gives the wanted name if it has one round at most. -/
theorem freeName_wanted_iff (disk : Disk) (hlen : filename.strlen < 500) :
    (∃ n x, freeName disk n (some filename) = some (some x) ∧ Wanted disk.files filename x) ↔
      filename ∉ disk.files ∨ filename.strrchr CHAR_DOT ≠ none ∧
        insertText filename (numberText 1) ∉ disk.files := by
  have hone : numbers 1 = numberText 1 := CString.ext (List.nil_append _)
  constructor
  · rintro ⟨n, x, hx, hfree, hwanted⟩
    obtain ⟨m, hm, -, hbefore⟩ := (freeName_iff filename disk).mp ⟨n, hx⟩
    obtain ⟨heq, hdot⟩ := tried_eq_some hm.symm
    obtain rfl | rfl | hlt : m = 0 ∨ m = 1 ∨ 1 < m := by omega
    · rw [numbers, insertText_empty] at heq
      exact Or.inl (heq ▸ hfree)
    · rw [hone] at heq
      exact Or.inr ⟨(hdot Nat.one_pos).1, heq ▸ hfree⟩
    · -- a second number makes it another name than any with one number
      exfalso
      have hgiven := taken_iff.mp (hbefore 0 (by omega))
      obtain ⟨hno, -⟩ | ⟨-, N, -, hname, -⟩ := hwanted
      · exact hno hgiven
      · have hcount := congrArg (fun s : CString => s.chars.count CHAR_DASH) (heq.symm.trans hname)
        simp only [count_dash_insertText, count_dash_numbers, count_dash_numberText] at hcount
        omega
  · intro h
    by_cases hgiven : filename ∈ disk.files
    · obtain ⟨hdot, hfree⟩ := h.resolve_left (not_not.mpr hgiven)
      have htried := tried_one hdot hlen
      obtain ⟨n, hn⟩ := (freeName_iff filename disk).mpr ⟨1, htried.symm,
        fun ht => hfree (taken_iff.mp ht), fun j hj => by
          obtain rfl : j = 0 := by omega
          exact taken_iff.mpr hgiven⟩
      exact ⟨n, _, hn, hfree, Or.inr ⟨hgiven, 1, Nat.le_refl 1, rfl, fun M h1 h2 => by omega⟩⟩
    · obtain ⟨n, hn⟩ := (freeName_iff filename disk).mpr ⟨0, rfl,
        fun ht => hgiven (taken_iff.mp ht), fun j hj => absurd hj (Nat.not_lt_zero j)⟩
      exact ⟨n, _, hn, hgiven, Or.inl ⟨hgiven, rfl⟩⟩

/-- An encoder that does not record. -/
def idle : Filedump where
  name := .literal ['o', 'g', 'g']
  filedump := .literal []
  filedump_fd := none
  write_to_disk := false

/-- A disk with files of some names. -/
def diskOf (names : List (List Char)) : Disk where
  files := names.map .literal
  creatable _ := true
  strerror := .literal []

end FreeJ
