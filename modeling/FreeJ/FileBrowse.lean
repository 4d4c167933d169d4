import Mathlib.Data.List.Lex
import Mathlib.Data.List.Sort
import FreeJ.Completion
import FreeJ.SlwReadline

/-!
# Completing File Names

`console_filebrowse_completion` completes the path in a command line. What stands behind the last
slash of a path that does not exist is completed among the entries of the directory in front of
it: `scandir` reads and sorts those that `filebrowse_completion_selector` keeps, the first of them
is left out, and `Linklist::completion` finds the others that begin in the right way.

The file system is a parameter; a directory has entries of different names, `.` and `..` among
them. `alphasort` compares bytes. What `strerror` says is a parameter too.

## Main results

* `fileNames_perm_iff`: when the candidates are the visible entries.
* `browse_right_iff`: when an incomplete path is completed by the visible entries.
-/

namespace FreeJ

open Links

variable {E : Type*}

/-- `'/'` -/
def CHAR_SLASH : CHAR := 0x2f

/-! ### Files -/

/-- What `st_mode` tells of a file. -/
inductive FileMode
  | S_ISREG
  | S_ISDIR
  | other
  deriving DecidableEq, Repr

/-- The entries of a directory, in the order in which `readdir` returns them. -/
structure Directory where
  names : List CString
  nodup : names.Nodup
  dot : .literal ['.'] ∈ names
  dotdot : .literal ['.', '.'] ∈ names
  /-- `d_name` has 256 characters. -/
  fits : ∀ n ∈ names, n.strlen < 256

/-- The file system: a call that fails has no result. -/
structure Files where
  stat : CString → Option FileMode
  readdir : CString → Option Directory
  /-- `strerror(errno)` after a call that failed -/
  strerror : CString

/-- `filebrowse_completion_selector` -/
def filebrowse_completion_selector (d_name : CString) : Bool :=
  if d_name.at 0 = CHAR_DOT then
    if d_name.at 1 ≠ CHAR_DOT then false -- skip hidden files
    else true
  else true

/-- `alphasort` puts the first name in front of the second, or they are the same. -/
def alphasort (s t : CString) : Prop := s.chars.map BitVec.toNat ≤ t.chars.map BitVec.toNat

instance : DecidableRel alphasort := fun s t =>
  inferInstanceAs (Decidable (s.chars.map BitVec.toNat ≤ t.chars.map BitVec.toNat))

/-- `scandir(path,&filelist,filebrowse_completion_selector,alphasort)` -/
def Directory.scandir (dir : Directory) : List CString :=
  (dir.names.filter filebrowse_completion_selector).insertionSort alphasort

/-- `Entry::set_name` -/
def set_name (nn : CString) : CString := nn.take 255

/-- The name of the entry made for `filelist[c]`. -/
def entryName (filelist : List CString) (c : ℕ) : Option CString := filelist[c]?.map set_name

/-- The entries that `for(c=found-1;c>0;c--)` appends, each known by its `c`. -/
def fileEntries (filelist : List CString) : List ℕ :=
  (List.range' 1 (filelist.length - 1)).reverse

/-- `e->name`, for an entry that is there -/
def listedName (filelist : List CString) (c : ℕ) : CString :=
  (entryName filelist c).getD (.literal [])

/-- The names of the entries, in the order of the list. -/
def fileNames (dir : Directory) : List CString :=
  (fileEntries dir.scandir).map (listedName dir.scandir)

/-! ### The command -/

/-- What `console_filebrowse_completion` leaves and returns. -/
structure Browsed where
  cmd : CString
  messages : List Message
  ret : ℕ
  deriving DecidableEq, Repr

/-- What `path` is at first. -/
def browsePath (pwd cmd : CString) : CString :=
  if cmd.at 0 ≠ CHAR_SLASH then -- path is relative: prefix our location
    (pwd ++ .literal ['/'] ++ cmd).take (MAX_CMDLINE - 1)
  else cmd.take MAX_CMDLINE

/-- `for( c = strlen(path); path[c]!='/' && c>0; c-- );` -/
def slashFrom (path : CString) : ℕ → ℕ
  | 0 => 0
  | c + 1 => if path.at (c + 1) ≠ CHAR_SLASH then slashFrom path c else c + 1

/-- The path up to its last slash, once `path[c+1]` is zero. -/
def browseDir (path : CString) : CString := path.take (slashFrom path path.strlen + 1)

/-- `needle` -/
def browseNeedle (path : CString) : CString :=
  (path.drop (slashFrom path path.strlen + 1)).take MAX_CMDLINE

/-- Read `comps[c]` and what follows, up to a null pointer; the buffer has an end. -/
def Compbuf.readFrom (comps : Compbuf E) : ℕ → ℕ → Option (List E)
  | 0, _ => none
  | k + 1, c =>
    if h : c < MAX_COMPLETION * SIZEOF_PTR then
      match comps ⟨c, h⟩ with
      | none => some []
      | some e => (comps.readFrom k (c + 1)).map (e :: ·)
    else none

/-- What follows `files.completion(needle)`: `comps[0]` and `comps[1]` tell how much was found. A
pointer that is not one of an entry is not followed. -/
def browseComps (filelist : List CString) (path needle cmd : CString) (comps : Compbuf ℕ) :
    Option Browsed :=
  match comps ⟨0, by decide⟩, comps ⟨1, by decide⟩ with
  | none, _ => some { cmd := cmd, messages := [], ret := 0 }
  | some e, none => -- exact match
    (entryName filelist e).map fun name =>
      { cmd := (path ++ name).take (MAX_CMDLINE - 1), messages := [], ret := 1 }
  | some _, some _ => -- multiple matches
    (comps.readFrom (MAX_COMPLETION * SIZEOF_PTR) 0).bind fun es =>
      (es.mapM (entryName filelist)).map fun names =>
        { cmd := cmd
          messages := .notice (.literal "list of ".toList ++ needle ++
            .literal "* files in ".toList ++ path ++ .literal ":".toList) ::
              names.map fun name => .act (.literal " ".toList ++ name)
          ret := names.length }

/-- The rest of the command, once a directory is read. -/
def browseFiles (dir : Directory) (incomplete : Bool) (path needle cmd : CString)
    (compbuf : Compbuf ℕ) : Option Browsed :=
  let filelist := dir.scandir
  let files := Linklist.ofList (fileEntries filelist)
  if incomplete then
    (Linklist.completion files (listedName filelist) () needle compbuf).bind
      (browseComps filelist path needle cmd)
  else -- list all entries
    ((fileEntries filelist).mapM (entryName filelist)).map fun names =>
      { cmd := cmd
        messages := .notice (.literal "list of all files in ".toList ++ path ++
          .literal ":".toList) :: names.map .act
        ret := names.length }

/-- `console_filebrowse_completion`: `PWD`, the command line and what is in the completion buffer
of the new list. A path that has no place for the slash behind it has no result. -/
def console_filebrowse_completion (fs : Files) (pwd cmd : CString) (compbuf : Compbuf ℕ) :
    Option Browsed :=
  let path := browsePath pwd cmd
  let failed (cmd : CString) := some
    { cmd := cmd
      messages := [.error (.literal "filebrowse_completion: scandir: ".toList ++ fs.strerror)]
      ret := 0 }
  match fs.stat path with
  | none => -- no file there?
    let needle := browseNeedle path
    let path := browseDir path
    match fs.stat path with
    | none => some
        { cmd := cmd
          messages := [.error (.literal "error on file completion path ".toList ++ path ++
            .literal ": ".toList ++ fs.strerror)]
          ret := 0 }
    | some _ =>
      match fs.readdir path with
      | none => failed cmd
      | some dir => browseFiles dir true path needle cmd compbuf
  | some .S_ISREG => some { cmd := cmd, messages := [], ret := 1 }
  | some mode =>
    let slash := mode = .S_ISDIR ∧ path.at (path.strlen - 1) ≠ CHAR_SLASH
    if slash ∧ MAX_CMDLINE ≤ path.strlen + 1 then none
    else
      let path := if slash then path ++ .literal ['/'] else path
      let cmd := path
      match fs.readdir path with
      | none => failed cmd
      | some dir => browseFiles dir false path (.literal []) cmd compbuf

/-! ### The candidates -/

/-- The entry is not hidden. -/
def visible (d_name : CString) : Bool := d_name.at 0 ≠ CHAR_DOT

variable {dir : Directory} {n : CString}

theorem mem_scandir : n ∈ dir.scandir ↔ n ∈ dir.names ∧ filebrowse_completion_selector n := by
  rw [Directory.scandir, List.mem_insertionSort, List.mem_filter]

theorem nodup_scandir (dir : Directory) : dir.scandir.Nodup :=
  ((List.perm_insertionSort alphasort _).nodup_iff).mpr (dir.nodup.filter _)

theorem dotdot_mem_scandir (dir : Directory) : .literal ['.', '.'] ∈ dir.scandir :=
  mem_scandir.mpr ⟨dir.dotdot, by decide⟩

theorem alphasort_antisymm {s t : CString} (h : alphasort s t) (h' : alphasort t s) : s = t := by
  have hinj : Function.Injective (List.map (BitVec.toNat (w := 8))) :=
    List.map_injective_iff.mpr fun _ _ => BitVec.eq_of_toNat_eq
  exact CString.ext (hinj (le_antisymm h h'))

instance : Std.Total alphasort := ⟨fun _ _ => le_total _ _⟩

instance : IsTrans CString alphasort := ⟨fun _ _ _ h h' => le_trans h h'⟩

/-- `..` is not behind a visible name that starts with a byte that is not below `.`. -/
theorem alphasort_dotdot_iff (hn : visible n) :
    alphasort (.literal ['.', '.']) n ↔ CHAR_DOT.toNat ≤ (n.at 0).toNat := by
  have hchars : (CString.literal ['.', '.']).chars.map BitVec.toNat = [46, 46] := by decide
  have hdot : CHAR_DOT.toNat = 46 := by decide
  have hne : n.at 0 ≠ CHAR_DOT := by simpa [visible] using hn
  rw [alphasort, hchars, hdot]
  rw [CString.at] at hne ⊢
  generalize n.chars = chars at hne ⊢
  cases chars with
  | nil => simp [EOL]
  | cons c cs =>
      have hc : c.toNat ≠ 46 := fun heq => hne (BitVec.eq_of_toNat_eq (heq.trans hdot.symm))
      rw [List.map_cons, le_iff_lt_or_eq, List.cons_lt_cons_iff, List.getD_cons_zero]
      simp only [List.cons.injEq]
      omega

/-- The names that are appended are all that are sorted but the first. -/
theorem map_listedName (dir : Directory) :
    (List.range' 1 (dir.scandir.length - 1)).map (listedName dir.scandir) =
      dir.scandir.tail := by
  apply List.ext_getElem?
  intro i
  rw [List.getElem?_map, List.getElem?_tail]
  by_cases hi : i < dir.scandir.length - 1
  · have hlt : 1 + i < dir.scandir.length := by omega
    have hfits := dir.fits _ (mem_scandir.mp (List.getElem_mem hlt)).1
    rw [List.getElem?_range' hi, Nat.one_mul, Option.map_some, listedName, entryName,
      List.getElem?_eq_getElem hlt, Option.map_some, Option.getD_some, set_name,
      CString.take_of_le (by omega), Nat.add_comm i 1, List.getElem?_eq_getElem hlt]
  · rw [List.getElem?_eq_none (by simpa using hi), List.getElem?_eq_none (by omega)]
    rfl

theorem fileNames_eq (dir : Directory) : fileNames dir = dir.scandir.tail.reverse := by
  rw [fileNames, fileEntries, List.map_reverse, map_listedName]

/-- No name is taken for `..`, and none is sorted in front of it. -/
def Directory.Sane (dir : Directory) : Prop :=
  ∀ n ∈ dir.names, n ≠ .literal ['.'] → n ≠ .literal ['.', '.'] →
    CHAR_DOT.toNat ≤ (n.at 0).toNat ∧ (n.at 0 = CHAR_DOT → n.at 1 ≠ CHAR_DOT)

instance (dir : Directory) : Decidable dir.Sane :=
  inferInstanceAs (Decidable (∀ n ∈ dir.names, n ≠ .literal ['.'] → n ≠ .literal ['.', '.'] →
    CHAR_DOT.toNat ≤ (n.at 0).toNat ∧ (n.at 0 = CHAR_DOT → n.at 1 ≠ CHAR_DOT)))

/-- What is kept apart from `..` is visible. -/
theorem Directory.Sane.mem_scandir_iff {dir : Directory} (h : dir.Sane) {x : CString}
    (hx : x ≠ .literal ['.', '.']) : x ∈ dir.scandir ↔ x ∈ dir.names ∧ visible x := by
  rw [mem_scandir]
  refine and_congr_right fun hmem => ?_
  rw [filebrowse_completion_selector, visible]
  by_cases h0 : x.at 0 = CHAR_DOT
  · have h1 : x.at 1 ≠ CHAR_DOT := by
      by_cases hdot : x = .literal ['.']
      · rw [hdot]
        decide
      · exact (h x hmem hdot hx).2 h0
    simp [h0, h1]
  · simp [h0]

/-- **When the candidates are the visible entries**: the one that is left out has to be `..`. -/
theorem fileNames_perm_iff (dir : Directory) :
    (fileNames dir).Perm (dir.names.filter visible) ↔ dir.Sane := by
  rw [fileNames_eq]
  obtain ⟨first, rest, hscan⟩ : ∃ first rest, dir.scandir = first :: rest :=
    List.exists_cons_of_ne_nil (List.ne_nil_of_mem (dotdot_mem_scandir dir))
  have hnodup := nodup_scandir dir
  have hsorted := List.pairwise_insertionSort alphasort
    (dir.names.filter filebrowse_completion_selector)
  have hdotdot := dotdot_mem_scandir dir
  rw [← Directory.scandir, hscan] at hsorted
  rw [hscan] at hnodup hdotdot
  have hfirst := List.nodup_cons.mp hnodup
  rw [hscan, List.tail_cons]
  constructor
  · intro hperm n hn hdot hne
    have hmem : ∀ x, x ∈ rest ↔ x ∈ dir.names ∧ visible x := fun x => by
      rw [← List.mem_reverse, hperm.mem_iff, List.mem_filter]
    have hhead : first = .literal ['.', '.'] := by
      obtain h | h := List.mem_cons.mp hdotdot
      · exact h.symm
      · exact absurd ((hmem _).mp h).2 (by decide)
    refine ⟨?_, fun h0 h1 => ?_⟩
    · by_cases hv : visible n
      · rw [← alphasort_dotdot_iff hv, ← hhead]
        exact List.rel_of_pairwise_cons hsorted ((hmem n).mpr ⟨hn, hv⟩)
      · have h0 : n.at 0 = CHAR_DOT := by simpa [visible] using hv
        rw [h0]
    · have hscanned : n ∈ dir.scandir :=
        mem_scandir.mpr ⟨hn, by simp [filebrowse_completion_selector, h1]⟩
      rw [hscan, hhead] at hscanned
      have hrest := (List.mem_cons.mp hscanned).resolve_left hne
      exact absurd ((hmem n).mp hrest).2 (by simp [visible, h0])
  · intro hsane
    have hhead : first = .literal ['.', '.'] := by
      by_contra hne
      have hfirst_mem : first ∈ dir.scandir := by rw [hscan]; exact List.mem_cons_self
      obtain ⟨hmem, hv⟩ := (hsane.mem_scandir_iff hne).mp hfirst_mem
      have hdot : first ≠ .literal ['.'] := by
        rintro rfl
        exact absurd hv (by decide)
      have hle := (alphasort_dotdot_iff hv).mpr (hsane first hmem hdot hne).1
      have hge : alphasort first (.literal ['.', '.']) :=
        List.rel_of_pairwise_cons hsorted ((List.mem_cons.mp hdotdot).resolve_left (Ne.symm hne))
      exact hne (alphasort_antisymm hge hle)
    refine (List.reverse_perm rest).trans ?_
    rw [List.perm_ext_iff_of_nodup hfirst.2 (dir.nodup.filter _)]
    intro x
    rw [List.mem_filter]
    by_cases hx : x = .literal ['.', '.']
    · rw [hx, ← hhead]
      refine iff_of_false hfirst.1 fun h => ?_
      rw [hhead] at h
      exact absurd h.2 (by decide)
    · rw [← hsane.mem_scandir_iff hx, hscan, List.mem_cons, hhead, or_iff_right hx]

/-! ### What is found -/

theorem Compbuf.readFrom_eq_some_iff {comps : Compbuf E} {es : List E} {k c : ℕ}
    (hkc : c + k = MAX_COMPLETION * SIZEOF_PTR) :
    comps.readFrom k c = some es ↔ es.length < k ∧
      ∀ i, c ≤ i.val → i.val ≤ c + es.length → comps i = es[i.val - c]? := by
  induction k generalizing es c with
  | zero => simp [Compbuf.readFrom]
  | succ k ih =>
      have hlt : c < MAX_COMPLETION * SIZEOF_PTR := by omega
      rw [Compbuf.readFrom, dif_pos hlt]
      cases hc : comps ⟨c, hlt⟩ with
      | none =>
          constructor
          · rintro h
            obtain rfl := Option.some.inj h
            refine ⟨Nat.succ_pos k, fun i h1 h2 => ?_⟩
            have hi : i = ⟨c, hlt⟩ := Fin.ext (Nat.le_antisymm h2 h1)
            rw [hi, hc]
            rfl
          · rintro ⟨-, h⟩
            have hat := h ⟨c, hlt⟩ (Nat.le_refl _) (Nat.le_add_right _ _)
            rw [hc, Nat.sub_self] at hat
            cases es with
            | nil => rfl
            | cons e es => cases hat
      | some e =>
          cases es with
          | nil =>
              refine iff_of_false (by simp) fun h => ?_
              have hat := h.2 ⟨c, hlt⟩ (Nat.le_refl _) (Nat.le_refl _)
              rw [hc] at hat
              cases hat
          | cons e' es =>
              simp only [Option.map_eq_some_iff, List.cons.injEq, List.length_cons]
              constructor
              · rintro ⟨_, hread, rfl, rfl⟩
                obtain ⟨hlen, hslots⟩ := (ih (by omega)).mp hread
                refine ⟨by omega, fun i h1 h2 => ?_⟩
                by_cases hi : i.val = c
                · rw [show i = ⟨c, hlt⟩ from Fin.ext hi, hc]
                  simp
                · obtain ⟨j, hj⟩ : ∃ j, i.val - c = j + 1 := ⟨i.val - c - 1, by omega⟩
                  rw [hj, List.getElem?_cons_succ, hslots i (by omega) (by omega)]
                  congr 1
                  omega
              · rintro ⟨hlen, hslots⟩
                have hat := hslots ⟨c, hlt⟩ (Nat.le_refl _) (Nat.le_add_right _ _)
                rw [hc, Nat.sub_self] at hat
                refine ⟨es, (ih (by omega)).mpr ⟨by omega, fun i h1 h2 => ?_⟩,
                  Option.some.inj hat, rfl⟩
                obtain ⟨j, hj⟩ : ∃ j, i.val - c = j + 1 := ⟨i.val - c - 1, by omega⟩
                rw [hslots i (by omega) (by omega), hj, List.getElem?_cons_succ]
                congr 1
                omega

/-- Reading the buffer, if there is an end. -/
theorem Compbuf.readFrom_iff {comps : Compbuf E} {es : List E} :
    comps.readFrom (MAX_COMPLETION * SIZEOF_PTR) 0 = some es ↔ comps.ReadsAs es := by
  rw [Compbuf.readFrom_eq_some_iff (Nat.zero_add _), Compbuf.ReadsAs]
  simp only [Nat.zero_le, true_imp_iff, Nat.zero_add, Nat.sub_zero]

/-- A call of the command for a path that does not exist in a directory that can be read. -/
structure BrowseCall where
  fs : Files
  pwd : CString
  cmd : CString
  /-- The command line ends in its buffer. -/
  fits : cmd.strlen < MAX_CMDLINE
  compbuf : Compbuf ℕ
  dir : Directory
  incomplete : fs.stat (browsePath pwd cmd) = none
  exists_dir : fs.stat (browseDir (browsePath pwd cmd)) = some .S_ISDIR
  read : fs.readdir (browseDir (browsePath pwd cmd)) = some dir

namespace BrowseCall

variable (call : BrowseCall)

def path : CString := browseDir (browsePath call.pwd call.cmd)

def needle : CString := browseNeedle (browsePath call.pwd call.cmd)

/-- `console_filebrowse_completion` -/
def run : Option Browsed :=
  console_filebrowse_completion call.fs call.pwd call.cmd call.compbuf

/-- The visible entries that start with what was typed. -/
def hits : List CString := (call.dir.names.filter visible).filter call.needle.startsNoCase

/-- The one hit is filled in, several are listed. -/
structure Answers (r : Browsed) : Prop where
  nothing : call.hits = [] → r = { cmd := call.cmd, messages := [], ret := 0 }
  exact : ∀ n, call.hits = [n] →
    r = { cmd := (call.path ++ n).take (MAX_CMDLINE - 1), messages := [], ret := 1 }
  multiple : 2 ≤ call.hits.length → ∃ names : List CString, names.Perm call.hits ∧
    r = { cmd := call.cmd
          messages := .notice (.literal "list of ".toList ++ call.needle ++
            .literal "* files in ".toList ++ call.path ++ .literal ":".toList) ::
              names.map fun name => .act (.literal " ".toList ++ name)
          ret := names.length }

/-- The candidates are the visible entries, and the hits among them are the answer. -/
def Right : Prop :=
  (fileNames call.dir).Perm (call.dir.names.filter visible) ∧
    ∃ r, call.run = some r ∧ call.Answers r

/-- The call of `completion` on the list of entries. -/
def completion : CompletionCall ℕ () where
  heap := Linklist.ofList (fileEntries call.dir.scandir)
  names := listedName call.dir.scandir
  needle := call.needle
  entries := fileEntries call.dir.scandir
  linked := Linklist.linked_ofList (List.nodup_reverse.mpr List.nodup_range')

variable {call}

theorem run_eq : call.run = (call.completion.exec call.compbuf).bind
    (browseComps call.dir.scandir call.path call.needle call.cmd) := by
  simp only [run, console_filebrowse_completion, call.incomplete, call.exists_dir, call.read]
  rfl

/-- The names of the matches are those of the sorted names, but the first, that start with what
was typed. -/
theorem map_matches : call.completion.matches.map (listedName call.dir.scandir) =
    (fileNames call.dir).reverse.filter call.needle.startsNoCase := by
  rw [fileNames_eq, List.reverse_reverse, ← map_listedName, List.filter_map]
  simp only [CompletionCall.matches, completion, fileEntries, List.reverse_reverse]
  rfl

theorem lt_of_mem_matches {c : ℕ} (hc : c ∈ call.completion.matches) :
    c < call.dir.scandir.length := by
  have hmem : c ∈ (fileEntries call.dir.scandir).reverse := (List.mem_filter.mp hc).1
  rw [fileEntries, List.reverse_reverse, List.mem_range'_1] at hmem
  omega

/-- The names of entries that are there. -/
theorem entryName_eq {filelist : List CString} {c : ℕ} (hc : c < filelist.length) :
    entryName filelist c = some (listedName filelist c) := by
  rw [listedName, entryName, List.getElem?_eq_getElem hc]
  rfl

theorem mapM_entryName {filelist : List CString} {es : List ℕ}
    (hes : ∀ c ∈ es, c < filelist.length) :
    es.mapM (entryName filelist) = some (es.map (listedName filelist)) := by
  induction es with
  | nil => rfl
  | cons c es ih =>
      rw [List.mapM_cons, entryName_eq (hes c List.mem_cons_self),
        ih fun x hx => hes x (List.mem_cons_of_mem c hx)]
      rfl

theorem length_of_mapM {filelist names : List CString} {es : List ℕ}
    (h : es.mapM (entryName filelist) = some names) : names.length = es.length := by
  induction es generalizing names with
  | nil =>
      obtain rfl := Option.some.inj h
      rfl
  | cons c es ih =>
      rw [List.mapM_cons] at h
      obtain ⟨name, -, h⟩ := Option.bind_eq_some_iff.mp h
      obtain ⟨names', hnames', h⟩ := Option.bind_eq_some_iff.mp h
      obtain rfl := Option.some.inj h
      rw [List.length_cons, ih hnames', List.length_cons]

/-- What the command makes of a buffer that reads as entries that are there. -/
theorem browseComps_eq {filelist : List CString} {path needle cmd : CString}
    {comps : Compbuf ℕ} {es : List ℕ} (hread : comps.ReadsAs es)
    (hes : ∀ c ∈ es, c < filelist.length) :
    browseComps filelist path needle cmd comps = some
      (match es.map (listedName filelist) with
      | [] => { cmd := cmd, messages := [], ret := 0 }
      | [name] => { cmd := (path ++ name).take (MAX_CMDLINE - 1), messages := [], ret := 1 }
      | names =>
        { cmd := cmd
          messages := .notice (.literal "list of ".toList ++ needle ++
            .literal "* files in ".toList ++ path ++ .literal ":".toList) ::
              names.map fun name => .act (.literal " ".toList ++ name)
          ret := names.length }) := by
  have hslot := hread.2
  have h0 := hslot ⟨0, by decide⟩ (Nat.zero_le _)
  rw [browseComps, h0]
  match es, hread, hes, hslot with
  | [], _, _, _ => rfl
  | [e], _, hes, hslot =>
      rw [hslot ⟨1, by decide⟩ (Nat.le_refl _)]
      have hname := entryName_eq (hes e List.mem_cons_self)
      simp only [List.getElem?_cons_zero, List.getElem?_cons_succ, List.getElem?_nil, hname,
        Option.map_some, List.map_cons, List.map_nil]
  | e :: e' :: es, hread, hes, hslot =>
      rw [hslot ⟨1, by decide⟩ (by simp)]
      simp only [List.getElem?_cons_zero, List.getElem?_cons_succ,
        Compbuf.readFrom_iff.mpr hread, mapM_entryName hes, Option.bind_some, Option.map_some,
        List.map_cons]

/-- Several hits are read up to a null pointer. -/
theorem browseComps_multiple {filelist : List CString} {path needle cmd : CString}
    {comps : Compbuf ℕ} {r : Browsed} {e e' : ℕ} (h0 : comps ⟨0, by decide⟩ = some e)
    (h1 : comps ⟨1, by decide⟩ = some e')
    (hr : browseComps filelist path needle cmd comps = some r) :
    ∃ es, comps.ReadsAs es ∧ r.ret = es.length := by
  rw [browseComps, h0, h1] at hr
  obtain ⟨es, hes, hr⟩ := Option.bind_eq_some_iff.mp hr
  obtain ⟨names, hnames, rfl⟩ := Option.map_eq_some_iff.mp hr
  refine ⟨es, Compbuf.readFrom_iff.mp hes, ?_⟩
  exact length_of_mapM hnames

/-- Among the right candidates the call finds the hits, in some order. -/
theorem map_matches_perm
    (hperm : (fileNames call.dir).Perm (call.dir.names.filter visible)) :
    (call.completion.matches.map (listedName call.dir.scandir)).Perm call.hits := by
  rw [map_matches, hits]
  exact ((List.reverse_perm _).trans hperm).filter _

/-- The answer is right as soon as the buffer reads as the matches. -/
theorem answers_of_exact
    (hperm : (fileNames call.dir).Perm (call.dir.names.filter visible))
    (hexact : call.completion.Exact call.compbuf) :
    ∃ r, call.run = some r ∧ call.Answers r := by
  obtain ⟨comps, hexec, hread⟩ := hexact
  have hhits := map_matches_perm hperm
  rw [run_eq, hexec, Option.bind_some,
    browseComps_eq hread fun c hc => lt_of_mem_matches hc]
  refine ⟨_, rfl, ?_⟩
  generalize call.completion.matches.map (listedName call.dir.scandir) = names at hhits
  constructor
  · intro hnil
    rw [hnil] at hhits
    rw [hhits.eq_nil]
  · intro n hone
    rw [hone] at hhits
    rw [hhits.eq_singleton]
  · intro hlen
    rw [← hhits.length_eq] at hlen
    match names, hhits, hlen with
    | n :: n' :: names, hhits, _ => exact ⟨n :: n' :: names, hhits, rfl⟩

/-- With more matches than are cleared the answer is right only if the buffer reads as these. -/
theorem exact_of_answers
    (hperm : (fileNames call.dir).Perm (call.dir.names.filter visible))
    {r : Browsed} (hrun : call.run = some r) (hr : call.Answers r) :
    call.completion.Exact call.compbuf := by
  by_cases hlt : call.completion.matches.length < MAX_COMPLETION
  · exact (call.completion.exact_iff call.compbuf).mpr (Or.inl hlt)
  have hge : MAX_COMPLETION ≤ call.completion.matches.length := by omega
  have hmax : MAX_COMPLETION = 512 := rfl
  have hlen : call.completion.matches.length = call.hits.length := by
    rw [← (map_matches_perm hperm).length_eq, List.length_map]
  rw [run_eq] at hrun
  obtain ⟨comps, hexec, hcomps⟩ := Option.bind_eq_some_iff.mp hrun
  have hbuf := hexec
  rw [call.completion.exec_eq] at hbuf
  split at hbuf
  · rename_i hfit
    obtain rfl := Option.some.inj hbuf
    have hslot : ∀ i, i.val < call.completion.matches.length →
        (fun i : Fin (MAX_COMPLETION * SIZEOF_PTR) =>
          if i.val < call.completion.matches.length then call.completion.matches[i.val]?
          else if i.val < MAX_COMPLETION then none else call.compbuf i) i =
        call.completion.matches[i.val]? := fun i hi => if_pos hi
    have h0 := hslot ⟨0, by decide⟩ (by simp only; omega)
    have h1 := hslot ⟨1, by decide⟩ (by simp only; omega)
    rw [List.getElem?_eq_getElem (by simp only; omega)] at h0 h1
    obtain ⟨es, hread, hret⟩ := browseComps_multiple h0 h1 hcomps
    obtain ⟨names, hnames, rfl⟩ := hr.multiple (by omega)
    have hes : es.length = call.completion.matches.length := by
      rw [hlen, ← hnames.length_eq, ← hret]
    have heq : es = call.completion.matches := by
      refine List.ext_getElem? fun i => ?_
      by_cases hi : i < es.length
      · have hlt : i < MAX_COMPLETION * SIZEOF_PTR := Nat.lt_trans hi hread.1
        rw [← hread.2 ⟨i, hlt⟩ hi.le, hslot ⟨i, hlt⟩ (by simp only; omega)]
      · rw [List.getElem?_eq_none (by omega), List.getElem?_eq_none (by omega)]
    exact ⟨_, hexec, heq ▸ hread⟩
  · cases hbuf

/-- The directory `/a`, with one file `-b`. -/
def dashed : Directory where
  names := [.literal ['.'], .literal ['.', '.'], .literal ['-', 'b']]
  nodup := by decide
  dot := by decide
  dotdot := by decide
  fits := by decide

/-- A dash is completed in `/a`. -/
def completeDashed : BrowseCall where
  fs :=
    { stat := fun path => if path = .literal ['/', 'a', '/'] then some .S_ISDIR else none
      readdir := fun path => if path = .literal ['/', 'a', '/'] then some dashed else none
      strerror := .literal [] }
  pwd := .literal ['/']
  cmd := .literal ['/', 'a', '/', '-']
  fits := by decide
  compbuf _ := none
  dir := dashed
  incomplete := by decide
  exists_dir := by decide
  read := rfl

end BrowseCall

end FreeJ
