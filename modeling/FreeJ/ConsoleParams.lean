import FreeJ.BlitParameters
import FreeJ.Completion
import FreeJ.SlwReadline

/-!
# The Parameter Command

`console_param_selection` takes a line `name = value`: it ends the name in place, finds the
parameter of that name of the selected filter or else of the selected layer, lets it parse the
value and calls the callback that is registered. `console_param_completion` writes the beginning
of such a line if only one parameter's name begins as the line does.

The line is in memory, so that what is around it can be read and written too. A callback is known
by its address; the parameter and the position it was called with are recorded.

## Main results

* `param_selection_right_iff`: when the command sets the parameter it names, or nothing.
* `completed_line_iff`: when the completed line names the parameter.
-/

namespace FreeJ

open Function (update)
open Links

/-- `'='` -/
def CHAR_EQUALS : CHAR := 0x3d

variable {E L : Type*}

/-- A parameter of any type. -/
abbrev AnyParameter := (type : ParameterType) × Parameter type

/-- `Entry::name` -/
def AnyParameter.name (p : AnyParameter) : CString := p.2.name

/-- The selected layer: its name, the selected filter with the name of its prototype and its
parameters, and the parameters of the layer itself. -/
structure ParamLayer (L : Type*) where
  name : CString
  filt : Option (CString × L)
  parameters : Option L

/-- A callback, and what it was called with. -/
structure SetCall (E : Type*) where
  callback : ℕ
  param : E
  idx : ℤ
  deriving DecidableEq

/-- What `console_param_selection` returns and leaves: the parameters, those that were stored to,
the callbacks that ran, the memory of the line, and what was written on the console. -/
structure ParamSelection (E : Type*) where
  ret : ℕ
  data : E → AnyParameter
  stored : List E
  calls : List (SetCall E)
  cmd : Cells CHAR
  messages : List Message

/-- `%u` -/
def unsigned (idx : ℤ) : CString := .literal (Nat.toDigits 10 (idx % 2 ^ 32).toNat)

/-- `set_parameter` of filters and layers, by the callback and by what happens if there is no
parameter at the position. -/
def set_parameter (h : Heap E L) (data : E → AnyParameter) (parameters : L)
    (callback : AnyParameter → Option ℕ) (missing : Option Message) (unregistered : Message)
    (idx : ℤ) : Option (Bool × List (SetCall E) × List Message) :=
  match Linklist.pick h parameters idx with
  | none => none
  | some none => missing.map fun message => (false, [], [message])
  | some (some param) =>
    match callback (data param) with
    | none => some (false, [], [unregistered])
    | some f => some (true, [⟨f, param, idx⟩], [])

/-- `FilterInstance::set_parameter` -/
def FilterInstance.set_parameter (h : Heap E L) (data : E → AnyParameter) (proto : CString)
    (parameters : L) (idx : ℤ) : Option (Bool × List (SetCall E) × List Message) :=
  FreeJ.set_parameter h data parameters (fun p => p.2.filter_set_f)
    (some (.error
      (.ofString "parameter [" ++ unsigned idx ++ .ofString "] not found in filter " ++ proto)))
    (.error (.ofString "no filter callback function registered in this parameter")) idx

/-- `Layer::set_parameter`, which follows a null pointer if there is no parameter. -/
def Layer.set_parameter (h : Heap E L) (data : E → AnyParameter) (parameters : L) (idx : ℤ) :
    Option (Bool × List (SetCall E) × List Message) :=
  FreeJ.set_parameter h data parameters (fun p => p.2.layer_set_f) none
    (.error (.ofString "no layer callback function registered in this parameter")) idx

/-! ### The line -/

/-- A line in memory. -/
def CString.inMemory (cmd : CString) (around : ℤ → CHAR) : Cells CHAR :=
  ⟨(Cells.write ⟨around, []⟩ 0 (cmd.chars ++ [EOL])).cell, []⟩

/-- `for(p = cmd; *p != '\0'; p++) if(*p == '=')`, from `p` on with `n` rounds at most: where it
ends. -/
def findEquals (memory : ℤ → CHAR) : ℕ → ℤ → ℤ
  | 0, p => p
  | n + 1, p =>
    if memory p = EOL ∨ memory p = CHAR_EQUALS then p else findEquals memory n (p + 1)

/-- `while(*p == ' ') p++`, with `n` rounds at most: where it ends. -/
def skipBlanks (memory : ℤ → CHAR) : ℕ → ℤ → ℤ
  | 0, p => p
  | n + 1, p => if memory p = CHAR_BLANK then skipBlanks memory n (p + 1) else p

/-- `*p = '\0'; if(*(p-1) == ' ') *(p-1) = '\0'` -/
def endName (p : ℤ) (m : Cells CHAR) : Cells CHAR :=
  let m := (m.set p EOL).touch (p - 1)
  if m.cell (p - 1) = CHAR_BLANK then m.set (p - 1) EOL else m

/-- End the name, and find where the value begins, in a line of `n` characters. -/
def cutLine (n : ℕ) (m : Cells CHAR) : ℤ × Cells CHAR :=
  let p := findEquals m.cell n 0
  let m := m.read 0 (p.toNat + 1)
  let (p, m) := if m.cell p = CHAR_EQUALS then (p + 1, endName p m) else (p, m)
  let q := skipBlanks m.cell n p -- jump all spaces
  (q, m.read p ((q - p).toNat + 1))

/-! ### The commands -/

/-- Search, parse and set, in the parameters of a filter or of a layer. -/
def selectParam [DecidableEq E] (h : Heap E L) (data : E → AnyParameter) (parameters : L)
    (notFound : Message)
    (setParameter : (E → AnyParameter) → ℤ → Option (Bool × List (SetCall E) × List Message))
    (failed : CString → Message) (name value : CString) (p : ℤ) (m : Cells CHAR)
    (stack : ℕ → Float.Model) : Option (ParamSelection E) :=
  (Linklist.search h (fun e => (data e).name) parameters name).bind fun found =>
    match found.1 with
    | none => some ⟨0, data, [], [], m, [notFound]⟩
    | some param =>
      let parsed := (data param).2.parse value (fun i => m.cell (p + i)) stack
      let data' := update data param ⟨(data param).1, parsed.parameter⟩
      (setParameter data' found.2).map fun r =>
        { ret := if r.1 then 1 else 0
          data := data'
          stored := if parsed.stored then [param] else []
          calls := r.2.1
          cmd := m.read p parsed.read
          messages := parsed.messages ++ r.2.2 ++ if r.1 then [] else [failed (data param).name] }

/-- `console_param_selection` -/
def console_param_selection [DecidableEq E] (h : Heap E L) (data : E → AnyParameter)
    (lay : Option (ParamLayer L)) (cmd : Option CString) (around : ℤ → CHAR)
    (stack : ℕ → Float.Model) : Option (ParamSelection E) :=
  match cmd with
  | none => some ⟨0, data, [], [], ⟨around, []⟩, []⟩
  | some cmd =>
    let m := (cmd.inMemory around).read 0 (cmd.strlen + 1)
    if cmd.strlen = 0 then some ⟨0, data, [], [], m, []⟩
    else
      match lay with
      | none => some ⟨0, data, [], [], m, [.error (.ofString "no layer currently selected")]⟩
      | some lay =>
        let (p, m) := cutLine cmd.strlen m
        if m.cell p = EOL then some ⟨0, data, [], [], m, []⟩ -- no value was given
        else
          let name := CString.read m cmd.strlen 0
          let value := CString.read m cmd.strlen p
          match lay.filt, lay.parameters with
          | some (proto, parameters), _ =>
            selectParam h data parameters
              (.error
                (.ofString "parameter " ++ name ++ .ofString " not found in filter " ++ proto))
              (fun data => FilterInstance.set_parameter h data proto parameters)
              (fun param => .error (.ofString "error setting value " ++ value ++
                .ofString " for parameter " ++ param ++ .ofString " on filter " ++ proto))
              name value p m stack
          | none, some parameters =>
            selectParam h data parameters
              (.error (.ofString "parameter " ++ name ++ .ofString " not found in layers " ++
                lay.name))
              (fun data => Layer.set_parameter h data parameters)
              (fun param => .error (.ofString "error setting value " ++ value ++
                .ofString " for parameter " ++ param ++ .ofString " on layer " ++ lay.name))
              name value p m stack
          | none, none =>
            some ⟨0, data, [], [], m,
              [.warning (.ofString "no parameters found in layer " ++ lay.name)]⟩

/-- The entries in `compbuf` up to the null pointer, from `c` on, if there is one within `n`. -/
def Compbuf.hits (compbuf : Compbuf E) : ℕ → ℕ → Option (List E)
  | 0, _ => none
  | n + 1, c =>
    if hc : c < MAX_COMPLETION * SIZEOF_PTR then
      match compbuf ⟨c, hc⟩ with
      | none => some []
      | some param => (compbuf.hits n (c + 1)).map (param :: ·)
    else none

/-- `snprintf(cmd,MAX_CMDLINE,"%s = ",name)` -/
def paramPrompt (name : CString) : CString := (name ++ .ofString " = ").take (MAX_CMDLINE - 1)

/-- `console_param_completion`: what it returns, the line, `compbuf` and the messages. -/
def console_param_completion (h : Heap E L) (data : E → AnyParameter) (lay : Option (ParamLayer L))
    (cmd : CString) (compbuf : Compbuf E) : Option (ℕ × CString × Compbuf E × List Message) :=
  match lay with
  | none => some (0, cmd, compbuf, [.error (.ofString "no layer currently selected")])
  | some lay =>
    match (lay.filt.map Prod.snd).or lay.parameters with
    | none => some (0, cmd, compbuf, [])
    | some parameters =>
      (Linklist.completion h (fun e => (data e).name) parameters cmd compbuf).bind fun compbuf =>
        (compbuf.hits (MAX_COMPLETION * SIZEOF_PTR) 0).map fun params =>
          let listing := params.map fun param => (data param).2.listing
          match params with
          | [] => (0, cmd, compbuf, [])
          | [p] => (1, paramPrompt (data p).name, compbuf, listing) -- exact match
          | params => (params.length, cmd, compbuf, .notice (.ofString
              "List available parameters starting with \"" ++ cmd ++ .ofString "\"") :: listing)

/-! ### Cutting the line -/

/-- A string without the blanks in front of it. -/
def CString.skipBlanks (s : CString) : CString where
  chars := s.chars.dropWhile (· = CHAR_BLANK)
  noEOL h := s.noEOL (List.dropWhile_suffix _ |>.mem h)

/-- A string without one blank at its end. -/
def CString.trimBlank (s : CString) : CString :=
  if s.chars.getLast? = some CHAR_BLANK then s.take (s.strlen - 1) else s

/-- The name and the value in a line, if there is a value. -/
def CString.paramLine (cmd : CString) : Option (CString × CString) :=
  let k := cmd.chars.findIdx (· = CHAR_EQUALS)
  let value := (cmd.drop (k + 1)).skipBlanks
  if value.strlen = 0 then none else some ((cmd.take k).trimBlank, value)

variable {m : Cells CHAR} {xs : List CHAR} {i : ℤ} {n : ℕ} {cmd : CString}

theorem findEquals_eq (h : m.Holds i (xs ++ [EOL])) (hxs : EOL ∉ xs) (hn : xs.length ≤ n) :
    findEquals m.cell n i = i + xs.findIdx (· = CHAR_EQUALS) := by
  induction xs generalizing i n with
  | nil =>
      rw [List.findIdx_nil, Nat.cast_zero, Int.add_zero]
      cases n with
      | zero => rfl
      | succ n => rw [findEquals, if_pos (Or.inl h.1)]
  | cons x xs ih =>
      obtain ⟨n, rfl⟩ : ∃ n', n = n' + 1 := ⟨n - 1, by rw [List.length_cons] at hn; omega⟩
      rw [List.mem_cons, not_or] at hxs
      rw [List.cons_append] at h
      rw [findEquals, h.1, List.findIdx_cons]
      by_cases hx : x = CHAR_EQUALS
      · rw [if_pos (Or.inr hx), hx]
        simp
      · rw [if_neg (not_or.mpr ⟨Ne.symm hxs.1, hx⟩), ih h.2 hxs.2 (Nat.le_of_succ_le_succ hn),
          decide_eq_false hx]
        push_cast [cond_false]
        omega

theorem skipBlanks_eq (h : m.Holds i (xs ++ [EOL])) (hn : xs.length ≤ n) :
    FreeJ.skipBlanks m.cell n i = i + (xs.takeWhile (· = CHAR_BLANK)).length := by
  induction xs generalizing i n with
  | nil =>
      rw [List.takeWhile_nil, List.length_nil, Nat.cast_zero, Int.add_zero]
      cases n with
      | zero => rfl
      | succ n => rw [FreeJ.skipBlanks, h.1, if_neg (by decide)]
  | cons x xs ih =>
      obtain ⟨n, rfl⟩ : ∃ n', n = n' + 1 := ⟨n - 1, by rw [List.length_cons] at hn; omega⟩
      rw [List.cons_append] at h
      rw [FreeJ.skipBlanks, h.1, List.takeWhile_cons]
      by_cases hx : x = CHAR_BLANK
      · rw [if_pos hx, ih h.2 (Nat.le_of_succ_le_succ hn), if_pos (by simpa using hx),
          List.length_cons]
        push_cast
        omega
      · rw [if_neg hx, if_neg (by simpa using hx)]
        simp

/-- The line is in memory. -/
theorem CString.inMemory_holds (cmd : CString) (around : ℤ → CHAR) :
    (cmd.inMemory around).Holds 0 (cmd.chars ++ [EOL]) :=
  (Cells.write_holds (m := ⟨around, []⟩)).congr fun _ _ _ => rfl

/-- The name in front of the `=`. -/
def CString.lineName (cmd : CString) : CString :=
  (cmd.take (cmd.chars.findIdx (· = CHAR_EQUALS))).trimBlank

/-- The value behind the `=`. -/
def CString.lineValue (cmd : CString) : CString :=
  (cmd.drop (cmd.chars.findIdx (· = CHAR_EQUALS) + 1)).skipBlanks

theorem findIdx_equals_of_notMem (hno : CHAR_EQUALS ∉ xs) :
    xs.findIdx (· = CHAR_EQUALS) = xs.length :=
  List.findIdx_eq_length.mpr fun x hx => by
    simpa using fun heq : x = CHAR_EQUALS => hno (heq ▸ hx)

theorem findIdx_equals_append {pre : List CHAR} (hpre : CHAR_EQUALS ∉ pre) (post : List CHAR) :
    (pre ++ CHAR_EQUALS :: post).findIdx (· = CHAR_EQUALS) = pre.length := by
  rw [List.findIdx_append, findIdx_equals_of_notMem hpre, if_neg (Nat.lt_irrefl _)]
  simp [List.findIdx_cons]

theorem CString.trimBlank_chars (s : CString) : s.trimBlank.chars =
    if s.chars.getLast? = some CHAR_BLANK then s.chars.dropLast else s.chars := by
  rw [CString.trimBlank]
  split
  · exact List.dropLast_eq_take.symm
  · rfl

/-- Without an `=` there is no value. -/
theorem lineValue_of_notMem (hno : CHAR_EQUALS ∉ cmd.chars) : cmd.lineValue.chars = [] := by
  change (cmd.chars.drop (cmd.chars.findIdx (· = CHAR_EQUALS) + 1)).dropWhile _ = []
  rw [findIdx_equals_of_notMem hno, List.drop_eq_nil_of_le (Nat.le_succ _)]
  rfl

section Split

variable {pre post : List CHAR} (hcmd : cmd.chars = pre ++ CHAR_EQUALS :: post)
  (hpre : CHAR_EQUALS ∉ pre)
include hcmd hpre

theorem findIdx_line : cmd.chars.findIdx (· = CHAR_EQUALS) = pre.length := by
  rw [hcmd, findIdx_equals_append hpre]

/-- The value is what follows the first `=`. -/
theorem lineValue_chars : cmd.lineValue.chars = post.dropWhile (· = CHAR_BLANK) := by
  change (cmd.chars.drop (cmd.chars.findIdx (· = CHAR_EQUALS) + 1)).dropWhile _ = _
  rw [findIdx_line hcmd hpre, hcmd, ← List.drop_drop, List.drop_left]
  rfl

/-- The name is what stands in front of it. -/
theorem lineName_chars : cmd.lineName.chars =
    if pre.getLast? = some CHAR_BLANK then pre.dropLast else pre := by
  have htake : (cmd.take pre.length).chars = pre := by
    change cmd.chars.take pre.length = pre
    rw [hcmd, List.take_left]
  rw [CString.lineName, findIdx_line hcmd hpre, CString.trimBlank_chars, htake]

end Split

/-- The line after the cut, with the value at `p`. -/
structure Cut (cmd : CString) (p : ℤ) (m : Cells CHAR) : Prop where
  ends : p + cmd.lineValue.strlen = cmd.strlen
  value : m.Holds p (cmd.lineValue.chars ++ [EOL])
  name : cmd.lineValue.strlen ≠ 0 → m.Holds 0 (cmd.lineName.chars ++ [EOL])
  within : m.Within 0 (cmd.strlen + 1) ↔ cmd.at 0 ≠ CHAR_EQUALS

theorem within_read {lo hi : ℤ} : (m.read i n).Within lo hi ↔
    m.Within lo hi ∧ (n ≠ 0 → lo ≤ i ∧ i + n ≤ hi) := by
  constructor
  · intro h
    refine ⟨fun j hj => h j (Cells.mem_touched_read.mpr (Or.inl hj)), fun hn => ?_⟩
    have hfirst := h i (Cells.mem_touched_read.mpr (Or.inr (by omega)))
    have hlast := h (i + n - 1) (Cells.mem_touched_read.mpr (Or.inr (by omega)))
    omega
  · rintro ⟨h, hread⟩ j hj
    obtain hj | hj := Cells.mem_touched_read.mp hj
    · exact h j hj
    · have := hread (by omega)
      omega

/-- Without an `=` the line is not cut. -/
theorem cutLine_none (h : m.Holds 0 (cmd.chars ++ [EOL])) (hw : m.Within 0 (cmd.strlen + 1))
    (hno : CHAR_EQUALS ∉ cmd.chars) :
    Cut cmd (cutLine cmd.strlen m).1 (cutLine cmd.strlen m).2 := by
  have hvalue := lineValue_of_notMem hno
  have hlen : cmd.lineValue.strlen = 0 := by rw [CString.strlen, hvalue]; rfl
  have hend : m.Holds cmd.strlen ([] ++ [EOL]) := by
    have hright := (Cells.holds_append.mp h).2
    rwa [Int.zero_add] at hright
  have hp : findEquals m.cell cmd.strlen 0 = cmd.strlen := by
    have hfind := findEquals_eq h cmd.noEOL (Nat.le_refl _)
    rwa [findIdx_equals_of_notMem hno, Int.zero_add] at hfind
  have hq : FreeJ.skipBlanks m.cell cmd.strlen cmd.strlen = cmd.strlen := by
    rw [skipBlanks_eq hend (Nat.zero_le _)]
    simp
  have hcut : cutLine cmd.strlen m =
      ((cmd.strlen : ℤ), (m.read 0 (cmd.strlen + 1)).read cmd.strlen 1) := by
    have hne : m.cell cmd.strlen ≠ CHAR_EQUALS := by rw [hend.1]; decide
    simp only [cutLine, hp, Cells.read_cell, if_neg hne, hq, Int.sub_self, Int.toNat_natCast]
    rfl
  have hfirst : cmd.at 0 ≠ CHAR_EQUALS := by
    intro heq
    cases hchars : cmd.chars with
    | nil => rw [CString.at, hchars] at heq; exact absurd heq (by decide)
    | cons x xs =>
        rw [CString.at, hchars, List.getD_cons_zero] at heq
        exact hno (by rw [hchars, heq]; exact List.mem_cons_self)
  rw [hcut]
  refine ⟨by rw [hlen]; simp, ?_, fun hne => absurd hlen hne, iff_of_true ?_ hfirst⟩
  · rw [hvalue]
    exact hend.congr fun _ _ _ => rfl
  · rw [within_read, within_read]
    exact ⟨⟨hw, fun _ => by omega⟩, fun _ => by omega⟩

variable {p : ℤ}

theorem endName_cell (p : ℤ) (m : Cells CHAR) (j : ℤ) : (endName p m).cell j =
    if j = p ∨ j = p - 1 ∧ m.cell (p - 1) = CHAR_BLANK then EOL else m.cell j := by
  have hne : p - 1 ≠ p := by omega
  rw [endName, Cells.touch_cell, Cells.set_cell, Function.update_of_ne hne]
  by_cases hblank : m.cell (p - 1) = CHAR_BLANK
  · rw [if_pos hblank, Cells.set_cell, Cells.touch_cell, Cells.set_cell]
    by_cases hj : j = p - 1
    · rw [hj, Function.update_self, if_pos (Or.inr ⟨rfl, hblank⟩)]
    · rw [Function.update_of_ne hj]
      by_cases hp : j = p
      · rw [hp, Function.update_self, if_pos (Or.inl rfl)]
      · rw [Function.update_of_ne hp, if_neg (by tauto)]
  · rw [if_neg hblank, Cells.touch_cell, Cells.set_cell]
    by_cases hp : j = p
    · rw [hp, Function.update_self, if_pos (Or.inl rfl)]
    · rw [Function.update_of_ne hp, if_neg (by tauto)]

theorem within_endName {lo hi : ℤ} :
    (endName p m).Within lo hi ↔ m.Within lo hi ∧ lo ≤ p - 1 ∧ p < hi := by
  have hmem : ∀ j, j ∈ (endName p m).touched ↔ j = p - 1 ∨ j = p ∨ j ∈ m.touched := by
    intro j
    rw [endName]
    split
    · rw [Cells.mem_touched_set, Cells.mem_touched_touch, Cells.mem_touched_set]
      tauto
    · rw [Cells.mem_touched_touch, Cells.mem_touched_set]
  constructor
  · intro h
    have hlo := h (p - 1) ((hmem _).mpr (Or.inl rfl))
    have hhi := h p ((hmem _).mpr (Or.inr (Or.inl rfl)))
    exact ⟨fun j hj => h j ((hmem j).mpr (Or.inr (Or.inr hj))), by omega, by omega⟩
  · rintro ⟨h, hlo, hhi⟩ j hj
    obtain rfl | rfl | hj := (hmem j).mp hj
    · omega
    · omega
    · exact h j hj

/-- The name in front of `p` ends there, or in front of a blank. -/
theorem endName_holds {pre : List CHAR} (h : m.Holds 0 pre) :
    (endName pre.length m).Holds 0
      ((if pre.getLast? = some CHAR_BLANK then pre.dropLast else pre) ++ [EOL]) := by
  have hends : (endName pre.length m).Holds pre.length [EOL] := by
    refine ⟨?_, trivial⟩
    rw [endName_cell, if_pos (Or.inl rfl)]
  obtain rfl | ⟨us, c, rfl⟩ := List.eq_nil_or_concat' pre
  · exact hends
  · obtain ⟨hus, hc⟩ := Cells.holds_append.mp h
    rw [Int.zero_add] at hc
    have hlast : ((us ++ [c]).length : ℤ) - 1 = us.length := by
      rw [List.length_append, List.length_singleton]
      omega
    rw [List.getLast?_concat, List.dropLast_concat]
    by_cases hblank : some c = some CHAR_BLANK
    · rw [if_pos hblank]
      refine Cells.holds_append.mpr ⟨hus.congr fun j _ hj => ?_, ?_, trivial⟩
      · rw [endName_cell, if_neg (by omega)]
      · rw [endName_cell, hlast, Int.zero_add, hc.1]
        exact if_pos (Or.inr ⟨rfl, Option.some.inj hblank⟩)
    · rw [if_neg hblank]
      refine Cells.holds_append.mpr ⟨h.congr fun j _ hj => ?_, ?_⟩
      · rw [endName_cell, if_neg]
        rintro (rfl | ⟨-, hcell⟩)
        · omega
        · rw [hlast, hc.1] at hcell
          exact hblank (congrArg some hcell)
      · rwa [Int.zero_add]

/-- With an `=` the name ends there, or in front of the blank before it. -/
theorem cutLine_some {pre post : List CHAR} (h : m.Holds 0 (cmd.chars ++ [EOL]))
    (hw : m.Within 0 (cmd.strlen + 1)) (hcmd : cmd.chars = pre ++ CHAR_EQUALS :: post)
    (hpre : CHAR_EQUALS ∉ pre) :
    Cut cmd (cutLine cmd.strlen m).1 (cutLine cmd.strlen m).2 := by
  have hlen : cmd.strlen = pre.length + (1 + post.length) := by
    rw [CString.strlen, hcmd, List.length_append, List.length_cons]
    omega
  have hvalue := lineValue_chars hcmd hpre
  have hline : m.Holds 0 (pre ++ CHAR_EQUALS :: (post ++ [EOL])) := by
    rwa [hcmd, List.append_assoc] at h
  obtain ⟨hleft, hright⟩ := Cells.holds_append.mp hline
  rw [Int.zero_add] at hright
  have hp : findEquals m.cell cmd.strlen 0 = pre.length := by
    have hfind := findEquals_eq h cmd.noEOL (Nat.le_refl _)
    rwa [findIdx_line hcmd hpre, Int.zero_add] at hfind
  -- what is behind the `=` stays
  have hpost : (endName pre.length (m.read 0 (pre.length + 1))).Holds (pre.length + 1)
      (post ++ [EOL]) := by
    refine hright.2.congr fun j h1 _ => ?_
    rw [endName_cell, if_neg (by omega)]
    rfl
  have hq := skipBlanks_eq (n := cmd.strlen) hpost (by omega)
  have hsplit := List.takeWhile_append_dropWhile (p := (· = CHAR_BLANK)) (l := post)
  have hsum := congrArg List.length hsplit
  rw [List.length_append] at hsum
  generalize hm' : endName pre.length (m.read 0 (pre.length + 1)) = m' at hpost hq
  have hcut : cutLine cmd.strlen m =
      (pre.length + 1 + ((post.takeWhile (· = CHAR_BLANK)).length : ℤ),
        m'.read (pre.length + 1) ((post.takeWhile (· = CHAR_BLANK)).length + 1)) := by
    simp only [cutLine, hp, Cells.read_cell, if_pos hright.1, Int.toNat_natCast, hm', hq,
      add_sub_cancel_left]
  have hvaluelen : cmd.lineValue.strlen = (post.dropWhile (· = CHAR_BLANK)).length := by
    rw [CString.strlen, hvalue]
  rw [hcut]
  refine ⟨?_, ?_, fun _ => ?_, ?_⟩
  · rw [hvaluelen, hlen]
    push_cast
    omega
  · rw [← hsplit, List.append_assoc] at hpost
    rw [hvalue]
    exact (Cells.holds_append.mp hpost).2.congr fun _ _ _ => rfl
  · rw [lineName_chars hcmd hpre, ← hm']
    have hread : (m.read 0 (pre.length + 1)).Holds 0 pre := hleft.congr fun _ _ _ => rfl
    exact (endName_holds hread).congr fun _ _ _ => rfl
  · have hfirst : cmd.at 0 ≠ CHAR_EQUALS ↔ (0 : ℤ) ≤ pre.length - 1 := by
      rw [CString.at, hcmd]
      cases pre with
      | nil => exact iff_of_false (fun h => h rfl) (by decide)
      | cons x xs =>
          refine iff_of_true (fun h => hpre ?_) (by rw [List.length_cons]; omega)
          exact (h : x = CHAR_EQUALS) ▸ List.mem_cons_self
    rw [hfirst, ← hm', within_read, within_endName, within_read]
    constructor
    · exact fun hin => hin.1.2.1
    · exact fun hin => ⟨⟨⟨hw, fun _ => by omega⟩, hin, by omega⟩, fun _ => by omega⟩

/-- **What cutting a line does.** -/
theorem cutLine_spec (h : m.Holds 0 (cmd.chars ++ [EOL])) (hw : m.Within 0 (cmd.strlen + 1)) :
    Cut cmd (cutLine cmd.strlen m).1 (cutLine cmd.strlen m).2 := by
  by_cases hequals : CHAR_EQUALS ∈ cmd.chars
  · obtain ⟨pre, post, hcmd, hpre⟩ := List.eq_append_cons_of_mem hequals
    exact cutLine_some h hw hcmd hpre
  · exact cutLine_none h hw hequals

/-! ### The parameter that is named -/

variable {h : Heap E L} {data : E → AnyParameter} {l : L} {zs : List E} {param : E}
  {around : ℤ → CHAR} {stack : ℕ → Float.Model} {callback : AnyParameter → Option ℕ}

/-- The line names the parameter at a position, and has a value for it. -/
def Names (data : E → AnyParameter) (zs : List E) (cmd : CString) (i : ℕ) (param : E)
    (value : CString) : Prop :=
  zs[i]? = some param ∧
    ∃ name, cmd.paramLine = some (name, value) ∧ (data param).name.sameNoCase name = true

/-- Only a parameter that is named and gets a complete value is set, and its callback is called
with its position; nothing outside of the line is accessed. -/
structure ParamSelection.Right (r : ParamSelection E) (data : E → AnyParameter)
    (callback : AnyParameter → Option ℕ) (zs : List E) (cmd : CString) : Prop where
  sets : ∀ i param value val, Names data zs cmd i param value →
    (data param).1.complete value = some val →
      r.ret = 1 ∧ r.stored = [param] ∧ (∀ e, e ≠ param → r.data e = data e) ∧
        (∃ p, r.data param = ⟨(data param).1, p⟩ ∧
          p.value.Holds 0 ((data param).2.stored val) ∧ p.changed = true) ∧
        ∃ f, callback (data param) = some f ∧ r.calls = [⟨f, param, (i : ℤ) + 1⟩]
  refuses : (∀ i param value, Names data zs cmd i param value →
      (data param).1.complete value = none) →
    r.ret = 0 ∧ r.stored = [] ∧ r.data = data ∧ r.calls = []
  within : r.cmd.Within 0 (cmd.strlen + 1)

/-- The line does not begin with `=`, and what it names gets a complete value that `parse` finds if
it has a callback, and one that `parse` refuses if it has none. -/
def ParamLineOk (data : E → AnyParameter) (callback : AnyParameter → Option ℕ) (zs : List E)
    (cmd : CString) : Prop :=
  cmd.at 0 ≠ CHAR_EQUALS ∧ ∀ i param value, Names data zs cmd i param value →
    if (callback (data param)).isSome then
      ((data param).1.complete value).isSome ∧ (data param).1.Parses value
    else (data param).1.Refuses value

/-- The parameters that the console works on. -/
def ParamLayer.list (lay : ParamLayer L) : Option L := (lay.filt.map Prod.snd).or lay.parameters

/-- The callback that is called. -/
def ParamLayer.set_f (lay : ParamLayer L) (p : AnyParameter) : Option ℕ :=
  if lay.filt.isSome then p.2.filter_set_f else p.2.layer_set_f

/-- Without a value nothing happens. -/
theorem console_param_selection_idle [DecidableEq E] (lay : ParamLayer L) (cmd : CString) {q : ℤ}
    (hcut : cutLine cmd.strlen ((cmd.inMemory around).read 0 (cmd.strlen + 1)) = (q, m))
    (hidle : cmd.strlen ≠ 0 → m.cell q = EOL) :
    console_param_selection h data (some lay) (some cmd) around stack =
      some ⟨0, data, [], [],
        if cmd.strlen = 0 then (cmd.inMemory around).read 0 (cmd.strlen + 1) else m, []⟩ := by
  rw [console_param_selection]
  by_cases hlen : cmd.strlen = 0
  · simp only [if_pos hlen]
  · simp only [if_neg hlen, hcut, if_pos (hidle hlen)]

variable (h data stack) in
/-- With a value, the command whatever its messages are. -/
theorem console_param_selection_value [DecidableEq E] {lay : ParamLayer L}
    (hlist : lay.list = some l) (cmd : CString) {q : ℤ} (hlen : cmd.strlen ≠ 0)
    (hcut : cutLine cmd.strlen ((cmd.inMemory around).read 0 (cmd.strlen + 1)) = (q, m))
    (hvalue : m.cell q ≠ EOL) :
    ∃ notFound unregistered failed, ∃ missing : ℤ → Option Message,
      console_param_selection h data (some lay) (some cmd) around stack =
        selectParam h data l notFound
          (fun data idx => FreeJ.set_parameter h data l lay.set_f (missing idx) unregistered idx)
          failed
          (CString.read m cmd.strlen 0) (CString.read m cmd.strlen q) q m stack := by
  obtain ⟨name, filt, parameters⟩ := lay
  simp only [console_param_selection, if_neg hlen, hcut, if_neg hvalue]
  cases filt with
  | some filt =>
      obtain ⟨proto, l'⟩ := filt
      obtain rfl : l' = l := Option.some.inj hlist
      exact ⟨_, _, _, _, rfl⟩
  | none =>
      obtain rfl : parameters = some l := hlist
      exact ⟨_, _, _, _, rfl⟩

/-- No parameter has the name. -/
theorem selectParam_none [DecidableEq E] (hl : Linked h l zs) {name value : CString}
    (hno : ∀ e ∈ zs, (data e).name.sameNoCase name = false) {notFound : Message}
    {setParameter : (E → AnyParameter) → ℤ → Option (Bool × List (SetCall E) × List Message)}
    {failed : CString → Message} {q : ℤ} :
    selectParam h data l notFound setParameter failed name value q m stack =
      some ⟨0, data, [], [], m, [notFound]⟩ := by
  have hsearch := hl.search_name (fun e => (data e).name) name
  rw [List.find?_eq_none.mpr fun e he => by rw [hno e he]; decide] at hsearch
  obtain ⟨found, hfound, hnone⟩ := Option.map_eq_some_iff.mp hsearch
  rw [selectParam, hfound, Option.bind_some, hnone]

/-- The first parameter of the name parses the value, and its callback is called. -/
theorem selectParam_some [DecidableEq E] {us vs : List E} (hl : Linked h l (us ++ param :: vs))
    {name : CString} (hus : ∀ e ∈ us, (data e).name.sameNoCase name = false)
    (hparam : (data param).name.sameNoCase name = true)
    (hset : ∀ (type : ParameterType) (p : Parameter type) (bytes : List CHAR),
      callback ⟨type, p.store bytes⟩ = callback ⟨type, p⟩)
    (notFound unregistered : Message) (missing : ℤ → Option Message) (failed : CString → Message)
    (value : CString) (q : ℤ) (m : Cells CHAR) (stack : ℕ → Float.Model) :
    ∃ messages,
      selectParam h data l notFound
          (fun data idx => FreeJ.set_parameter h data l callback (missing idx) unregistered idx)
          failed
          name value q m stack =
        some
          { ret := if (callback (data param)).isSome then 1 else 0
            data := update data param
              ⟨_, ((data param).2.parse value (fun i => m.cell (q + i)) stack).parameter⟩
            stored := if ((data param).2.parse value (fun i => m.cell (q + i)) stack).stored then
              [param] else []
            calls := match callback (data param) with
              | none => []
              | some f => [⟨f, param, (us.length : ℤ) + 1⟩]
            cmd := m.read q ((data param).2.parse value (fun i => m.cell (q + i)) stack).read
            messages := messages } := by
  generalize hparsed : (data param).2.parse value (fun i => m.cell (q + i)) stack = parsed
  have hcallback : callback ⟨(data param).1, parsed.parameter⟩ = callback (data param) := by
    obtain ⟨-, heq⟩ | ⟨-, val, heq⟩ :=
      hparsed ▸ parse_settled (data param).2 value (fun i => m.cell (q + i)) stack
    · rw [heq]
    · rw [heq, hset]
  have hpick : Linklist.pick h l ((us.length : ℤ) + 1) = some (some param) := by
    rw [hl.pick, if_pos (by omega)]
    have hindex : ((us.length : ℤ) + 1 - 1).toNat = us.length := by omega
    rw [hindex, List.getElem?_append_right (Nat.le_refl _), Nat.sub_self]
    rfl
  have hfound := hl.search_found hus hparam
  simp only [selectParam, hfound, Option.bind_some, hparsed, FreeJ.set_parameter, hpick,
    Function.update_self, hcallback]
  cases callback (data param) with
  | none => exact ⟨_, rfl⟩
  | some f => exact ⟨_, rfl⟩

/-! ### When the command is right -/

theorem paramLine_eq_none_iff : cmd.paramLine = none ↔ cmd.lineValue.strlen = 0 := by
  change (if cmd.lineValue.strlen = 0 then none else some (cmd.lineName, cmd.lineValue)) = none ↔ _
  split
  · exact iff_of_true rfl ‹_›
  · exact iff_of_false (Option.some_ne_none _) ‹_›

theorem paramLine_eq (hvalue : cmd.lineValue.strlen ≠ 0) :
    cmd.paramLine = some (cmd.lineName, cmd.lineValue) := if_neg hvalue

theorem strlen_lineValue_le (cmd : CString) : cmd.lineValue.strlen ≤ cmd.strlen :=
  (List.dropWhile_suffix _).length_le.trans (List.drop_suffix _ _).length_le

theorem strlen_lineName_le (cmd : CString) : cmd.lineName.strlen ≤ cmd.strlen := by
  have htake : ∀ k, (cmd.take k).strlen ≤ cmd.strlen := fun k => List.length_take_le' k _
  rw [CString.lineName, CString.strlen, CString.trimBlank_chars]
  split
  · rw [List.length_dropLast]
    exact (Nat.sub_le _ _).trans (htake _)
  · exact htake _

/-- A string that is in memory. -/
theorem CString.read_of_holds {s : CString} (h : m.Holds i (s.chars ++ [EOL]))
    (hn : s.strlen ≤ n) : CString.read m n i = s :=
  CString.ext (Cells.readUntil_of_holds h s.noEOL hn)

theorem Cut.cell_eq_iff {q : ℤ} (hc : Cut cmd q m) : m.cell q = EOL ↔ cmd.lineValue.strlen = 0 := by
  have hvalue := hc.value
  rw [CString.strlen]
  cases hchars : cmd.lineValue.chars with
  | nil =>
      rw [hchars] at hvalue
      exact iff_of_true hvalue.1 rfl
  | cons c cs =>
      rw [hchars] at hvalue
      refine iff_of_false (fun heq => ?_) (Nat.succ_ne_zero _)
      have hc : c = EOL := hvalue.1.symm.trans heq
      exact cmd.lineValue.noEOL (by rw [hchars, hc]; exact List.mem_cons_self)

/-- If nothing is named, nothing should happen. -/
theorem idle_right_iff {messages : List Message} (hno : ∀ i param value,
    ¬ Names data zs cmd i param value)
    (hw : m.Within 0 (cmd.strlen + 1) ↔ cmd.at 0 ≠ CHAR_EQUALS) :
    (ParamSelection.mk 0 data [] [] m messages).Right data callback zs cmd ↔
      ParamLineOk data callback zs cmd := by
  constructor
  · exact fun h => ⟨hw.mp h.within, fun i param value hn => absurd hn (hno i param value)⟩
  · intro h
    exact ⟨fun i param value _ hn => absurd hn (hno i param value),
      fun _ => ⟨rfl, rfl, rfl, rfl⟩, hw.mpr h.1⟩

section Set

variable {k f : ℕ} {value : CString} {behind : ℕ → CHAR} {m' : Cells CHAR}
  {parsed : Parsed (data param).1} (messages : List Message)
  (hnames : ∀ i e v, Names data zs cmd i e v ↔ i = k ∧ e = param ∧ v = value)
  (hparsed : (data param).2.parse value behind stack = parsed)
  (hw : m'.Within 0 (cmd.strlen + 1) ↔ cmd.at 0 ≠ CHAR_EQUALS ∧ parsed.read ≤ value.strlen + 1)
include hnames

/-- If a parameter is named, what should happen depends on its value and on the callback. -/
theorem paramLineOk_iff : ParamLineOk data callback zs cmd ↔ cmd.at 0 ≠ CHAR_EQUALS ∧
    if (callback (data param)).isSome then
      ((data param).1.complete value).isSome ∧ (data param).1.Parses value
    else (data param).1.Refuses value := by
  refine and_congr_right fun _ => ⟨fun h => h k param value ((hnames k param value).mpr
    ⟨rfl, rfl, rfl⟩), ?_⟩
  rintro h i e v hn
  obtain ⟨-, rfl, rfl⟩ := (hnames i e v).mp hn
  exact h

include hparsed hw

/-- With a callback a complete value is to be stored. -/
theorem set_right_callback [DecidableEq E] (hcallback : callback (data param) = some f) :
    (ParamSelection.mk 1 (update data param ⟨(data param).1, parsed.parameter⟩)
      (if parsed.stored then [param] else []) [⟨f, param, (k : ℤ) + 1⟩] m' messages).Right
        data callback zs cmd ↔
      cmd.at 0 ≠ CHAR_EQUALS ∧ ((data param).1.complete value).isSome ∧
        (data param).1.Parses value := by
  have hnamed := (hnames k param value).mpr ⟨rfl, rfl, rfl⟩
  constructor
  · intro h
    cases hcomplete : (data param).1.complete value with
    | none =>
        have hcalls := (h.refuses fun i e v hn => by
          obtain ⟨-, rfl, rfl⟩ := (hnames i e v).mp hn
          exact hcomplete).2.2.2
        cases hcalls
    | some val =>
        have hstored := (h.sets k param value val hnamed hcomplete).2.1
        refine ⟨(hw.mp h.within).1, rfl,
          parses_of_stored (data param).2 behind stack hcomplete ?_⟩
        rw [hparsed]
        by_contra hno
        rw [if_neg hno] at hstored
        cases hstored
  · rintro ⟨hat, hsome, hparses⟩
    obtain ⟨val, hval⟩ := Option.isSome_iff_exists.mp hsome
    have hright := (parse_right_iff (data param).2 value behind stack).mpr hparses
    rw [hparsed] at hright
    have hstored := hright.stored
    rw [hval, Option.isSome_some] at hstored
    refine ⟨fun i e v val' hn hval' => ?_, fun hnone => ?_, hw.mpr ⟨hat, hright.reads⟩⟩
    · obtain ⟨rfl, rfl, rfl⟩ := (hnames i e v).mp hn
      obtain ⟨hholds, hchanged, -⟩ := hright.stores val' hval'
      exact ⟨rfl, if_pos hstored, fun e' he' => Function.update_of_ne he' _ _,
        ⟨parsed.parameter, Function.update_self _ _ _, hholds, hchanged⟩, f, hcallback, rfl⟩
    · exact absurd (hval.symm.trans (hnone k param value hnamed)) (Option.some_ne_none val)

/-- Without one the value is to be refused. -/
theorem set_right_unregistered [DecidableEq E] (hcallback : callback (data param) = none) :
    (ParamSelection.mk 0 (update data param ⟨(data param).1, parsed.parameter⟩)
      (if parsed.stored then [param] else []) [] m' messages).Right data callback zs cmd ↔
      cmd.at 0 ≠ CHAR_EQUALS ∧ (data param).1.Refuses value := by
  rw [← refuses_iff (data param).2 value behind stack, hparsed]
  constructor
  · intro h
    have hnone : (data param).1.complete value = none := by
      cases hcomplete : (data param).1.complete value with
      | none => rfl
      | some val =>
          have hnamed := (hnames k param value).mpr ⟨rfl, rfl, rfl⟩
          obtain ⟨f, hf, -⟩ := (h.sets k param value val hnamed hcomplete).2.2.2.2
          exact absurd (hcallback.symm.trans hf) (Option.some_ne_none f).symm
    have hstored := (h.refuses fun i e v hn => by
      obtain ⟨-, rfl, rfl⟩ := (hnames i e v).mp hn
      exact hnone).2.1
    refine ⟨(hw.mp h.within).1, hnone, ?_, (hw.mp h.within).2⟩
    by_contra hyes
    rw [if_pos (Bool.eq_true_of_not_eq_false hyes)] at hstored
    cases hstored
  · rintro ⟨hat, hnone, hstored, hread⟩
    have hkeeps : parsed.parameter = (data param).2 := by
      obtain ⟨-, heq⟩ | ⟨hyes, -⟩ :=
        hparsed ▸ parse_settled (data param).2 value behind stack
      · exact heq
      · exact absurd (hstored.symm.trans hyes) (by decide)
    refine ⟨fun i e v val hn hval => ?_, fun _ => ⟨rfl, ?_, ?_, rfl⟩, hw.mpr ⟨hat, hread⟩⟩
    · obtain ⟨-, rfl, rfl⟩ := (hnames i e v).mp hn
      exact absurd (hval.symm.trans hnone) (Option.some_ne_none val)
    · exact if_neg (by rw [hstored]; decide)
    · rw [hkeeps]
      exact Function.update_eq_self _ _

/-- **What is done with a parameter that is named** is right if the line is. -/
theorem set_right_iff [DecidableEq E] :
    (ParamSelection.mk (if (callback (data param)).isSome then 1 else 0)
      (update data param ⟨(data param).1, parsed.parameter⟩)
      (if parsed.stored then [param] else [])
      (match callback (data param) with
        | none => []
        | some f => [⟨f, param, (k : ℤ) + 1⟩]) m' messages).Right data callback zs cmd ↔
      ParamLineOk data callback zs cmd := by
  rw [paramLineOk_iff hnames]
  cases hcallback : callback (data param) with
  | some f => exact set_right_callback messages hnames hparsed hw hcallback
  | none => exact set_right_unregistered messages hnames hparsed hw hcallback

end Set

/-- Of different names only one is that of the line. -/
theorem names_iff {us vs : List E} (hzs : zs = us ++ param :: vs)
    (hnames : zs.Pairwise fun a b => (data a).name.sameNoCase (data b).name = false)
    (hvalue : cmd.lineValue.strlen ≠ 0)
    (hparam : (data param).name.sameNoCase cmd.lineName = true)
    (hus : ∀ e ∈ us, (data e).name.sameNoCase cmd.lineName = false) (i : ℕ) (e : E)
    (v : CString) :
    Names data zs cmd i e v ↔ i = us.length ∧ e = param ∧ v = cmd.lineValue := by
  have hat : zs[us.length]? = some param := by
    rw [hzs, List.getElem?_append_right (Nat.le_refl _), Nat.sub_self]
    rfl
  constructor
  · rintro ⟨hi, name, hline, hsame⟩
    rw [paramLine_eq hvalue] at hline
    obtain ⟨rfl, rfl⟩ := Prod.mk.inj (Option.some.inj hline)
    rcases Nat.lt_trichotomy i us.length with hlt | heq | hlt
    · rw [hzs, List.getElem?_append_left hlt] at hi
      exact absurd hsame (by rw [hus e (List.mem_of_getElem? hi)]; decide)
    · rw [heq, hat] at hi
      exact ⟨heq, (Option.some.inj hi).symm, rfl⟩
    · obtain ⟨j, rfl⟩ : ∃ j, i = us.length + (j + 1) := ⟨i - us.length - 1, by omega⟩
      rw [hzs, List.getElem?_append_right (Nat.le_add_right _ _), Nat.add_sub_cancel_left,
        List.getElem?_cons_succ] at hi
      rw [hzs, List.pairwise_append, List.pairwise_cons] at hnames
      have hne := hnames.2.1.1 e (List.mem_of_getElem? hi)
      simp only [CString.sameNoCase, decide_eq_true_eq, decide_eq_false_iff_not] at hparam hsame hne
      exact absurd (hparam.trans hsame.symm) hne
  · rintro ⟨rfl, rfl, rfl⟩
    exact ⟨hat, _, paramLine_eq hvalue, hparam⟩

/-- **When the command sets the parameter it names, or nothing**: the line does not begin with
`=`, and the value suits the parameter and its callback. -/
theorem param_selection_right_iff [DecidableEq E] {lay : ParamLayer L} (hlist : lay.list = some l)
    (hl : Linked h l zs)
    (hnames : zs.Pairwise fun a b => (data a).name.sameNoCase (data b).name = false)
    (cmd : CString) (around : ℤ → CHAR) (stack : ℕ → Float.Model) :
    (∃ r, console_param_selection h data (some lay) (some cmd) around stack = some r ∧
      r.Right data lay.set_f zs cmd) ↔ ParamLineOk data lay.set_f zs cmd := by
  have hholds : ((cmd.inMemory around).read 0 (cmd.strlen + 1)).Holds 0 (cmd.chars ++ [EOL]) :=
    (cmd.inMemory_holds around).congr fun _ _ _ => rfl
  have hwithin : ((cmd.inMemory around).read 0 (cmd.strlen + 1)).Within 0 (cmd.strlen + 1) :=
    within_read.mpr ⟨fun j hj => absurd hj List.not_mem_nil, fun _ => by omega⟩
  have hspec := cutLine_spec hholds hwithin
  obtain ⟨q, m, hcut⟩ : ∃ q m, cutLine cmd.strlen
    ((cmd.inMemory around).read 0 (cmd.strlen + 1)) = (q, m) := ⟨_, _, rfl⟩
  rw [hcut] at hspec
  by_cases hvalue : cmd.lineValue.strlen = 0
  · rw [console_param_selection_idle lay cmd hcut fun _ => hspec.cell_eq_iff.mpr hvalue]
    have hno : ∀ i param value, ¬ Names data zs cmd i param value := by
      rintro i param value ⟨-, name, hline, -⟩
      rw [paramLine_eq_none_iff.mpr hvalue] at hline
      cases hline
    have hw : (if cmd.strlen = 0 then (cmd.inMemory around).read 0 (cmd.strlen + 1)
        else m).Within 0 (cmd.strlen + 1) ↔ cmd.at 0 ≠ CHAR_EQUALS := by
      split
      · rename_i hlen
        refine iff_of_true hwithin ?_
        rw [CString.at, List.length_eq_zero_iff.mp hlen]
        decide
      · exact hspec.within
    simp only [Option.some.injEq, exists_eq_left']
    exact idle_right_iff hno hw
  · have hle := strlen_lineValue_le cmd
    have hends := hspec.ends
    obtain ⟨notFound, unregistered, failed, missing, hconsole⟩ :=
      console_param_selection_value h data stack hlist cmd (by omega) hcut fun hend =>
        hvalue (hspec.cell_eq_iff.mp hend)
    rw [CString.read_of_holds (hspec.name hvalue) (strlen_lineName_le cmd),
      CString.read_of_holds hspec.value hle] at hconsole
    rw [hconsole]
    cases hfind : zs.find? fun e => (data e).name.sameNoCase cmd.lineName with
    | none =>
        have hno : ∀ e ∈ zs, (data e).name.sameNoCase cmd.lineName = false := fun e he => by
          simpa using List.find?_eq_none.mp hfind e he
        rw [selectParam_none hl hno]
        have hnone : ∀ i param value, ¬ Names data zs cmd i param value := by
          rintro i param value ⟨hi, name, hline, hsame⟩
          rw [paramLine_eq hvalue] at hline
          obtain ⟨rfl, -⟩ := Prod.mk.inj (Option.some.inj hline)
          exact absurd hsame (by rw [hno param (List.mem_of_getElem? hi)]; decide)
        simp only [Option.some.injEq, exists_eq_left']
        exact idle_right_iff hnone hspec.within
    | some param =>
        obtain ⟨hparam, us, vs, hzs, hus⟩ := List.find?_eq_some_iff_append.mp hfind
        have hus' : ∀ e ∈ us, (data e).name.sameNoCase cmd.lineName = false := fun e he => by
          simpa using hus e he
        have hset : ∀ (type : ParameterType) (p : Parameter type) (bytes : List CHAR),
            lay.set_f ⟨type, p.store bytes⟩ = lay.set_f ⟨type, p⟩ := fun _ _ _ => rfl
        obtain ⟨messages, hselect⟩ := selectParam_some (hzs ▸ hl) hus' hparam hset notFound
          unregistered missing failed cmd.lineValue q m stack
        have hread : (m.read q ((data param).2.parse cmd.lineValue (fun i => m.cell (q + i))
            stack).read).Within 0 (cmd.strlen + 1) ↔ cmd.at 0 ≠ CHAR_EQUALS ∧
              ((data param).2.parse cmd.lineValue (fun i => m.cell (q + i)) stack).read ≤
                cmd.lineValue.strlen + 1 := by
          rw [within_read, hspec.within]
          refine and_congr_right fun _ => ?_
          omega
        rw [hselect]
        simp only [Option.some.injEq, exists_eq_left']
        exact set_right_iff messages (names_iff hzs hnames hvalue hparam hus') rfl hread

/-! ### The completed line -/

/-- A line that begins with a name, a blank and `=`. -/
theorem paramLine_of_prompt {name v : CString} (rest : List CHAR)
    (hline : cmd.chars = name.chars ++ CHAR_BLANK :: CHAR_EQUALS :: (rest ++ v.chars))
    (hname : CHAR_EQUALS ∉ name.chars) (hrest : ∀ c ∈ rest, c = CHAR_BLANK)
    (hv : v.skipBlanks.strlen ≠ 0) : cmd.paramLine = some (name, v.skipBlanks) := by
  have hsplit : cmd.chars = (name.chars ++ [CHAR_BLANK]) ++ CHAR_EQUALS :: (rest ++ v.chars) := by
    rw [hline, List.append_assoc]
    rfl
  have hpre : CHAR_EQUALS ∉ name.chars ++ [CHAR_BLANK] := by
    rw [List.mem_append, List.mem_singleton, not_or]
    exact ⟨hname, by decide⟩
  have hvalue : cmd.lineValue = v.skipBlanks := by
    apply CString.ext
    rw [lineValue_chars hsplit hpre]
    exact List.dropWhile_append_of_pos fun c hc => by simpa using hrest c hc
  have hlineName : cmd.lineName = name := by
    apply CString.ext
    rw [lineName_chars hsplit hpre, List.getLast?_concat, if_pos rfl, List.dropLast_concat]
  rw [paramLine_eq (by rwa [hvalue]), hvalue, hlineName]

/-- `"0"` -/
def zeroText : CString := .literal ['0']

/-- Behind a name that is too long there is no `=`. -/
theorem paramLine_of_long {name : CString} (hname : CHAR_EQUALS ∉ name.chars)
    (hlong : 253 < name.strlen) : (paramPrompt name ++ zeroText).paramLine = none := by
  have hprompt : (paramPrompt name).chars =
      (name.chars ++ [CHAR_BLANK, CHAR_EQUALS, CHAR_BLANK]).take 255 := rfl
  have hno : CHAR_EQUALS ∉ (paramPrompt name ++ zeroText).chars := by
    rw [CString.append_chars, hprompt, List.take_append, List.mem_append, List.mem_append]
    rintro ((hmem | hmem) | hmem)
    · exact hname (List.mem_of_mem_take hmem)
    · have hone : 255 - name.chars.length ≤ 1 := by
        have hlen : 253 < name.chars.length := hlong
        omega
      have hblank := List.take_subset_take_left [CHAR_BLANK, CHAR_EQUALS, CHAR_BLANK] hone hmem
      exact absurd hblank (by decide)
    · exact absurd hmem (by decide)
  refine paramLine_eq_none_iff.mpr ?_
  rw [CString.strlen, lineValue_of_notMem hno]
  rfl

theorem paramLine_of_short {name v : CString} (hname : CHAR_EQUALS ∉ name.chars)
    (hshort : name.strlen ≤ 253) (hv : v.skipBlanks.strlen ≠ 0) :
    (paramPrompt name ++ v).paramLine = some (name, v.skipBlanks) := by
  have hprompt : (paramPrompt name).chars =
      (name.chars ++ [CHAR_BLANK, CHAR_EQUALS, CHAR_BLANK]).take 255 := rfl
  have hlen : name.chars.length ≤ 253 := hshort
  obtain ⟨n, hn⟩ : ∃ n, 255 - name.chars.length = n + 2 := ⟨253 - name.chars.length, by omega⟩
  refine paramLine_of_prompt ([CHAR_BLANK].take n) ?_ hname
    (fun c hc => List.mem_singleton.mp (List.mem_of_mem_take hc)) hv
  rw [CString.append_chars, hprompt, List.take_append, List.take_of_length_le (by omega), hn,
    List.append_assoc]
  rfl

theorem hits_of_readsAs {compbuf : Compbuf E} {es : List E} (hread : compbuf.ReadsAs es) {n c : ℕ}
    (hn : c + n = MAX_COMPLETION * SIZEOF_PTR) (hc : c ≤ es.length) :
    compbuf.hits n c = some (es.drop c) := by
  induction n generalizing c with
  | zero =>
      have hlt := hread.1
      omega
  | succ n ih =>
      have hlt : c < MAX_COMPLETION * SIZEOF_PTR := by omega
      rw [Compbuf.hits, dif_pos hlt, hread.2 ⟨c, hlt⟩ hc]
      by_cases hend : c < es.length
      · simp only [List.getElem?_eq_getElem hend]
        rw [ih (by omega) hend, Option.map_some, ← List.drop_eq_getElem_cons hend]
      · simp only [List.getElem?_eq_none (not_lt.mp hend)]
        rw [List.drop_eq_nil_of_le (not_lt.mp hend)]

/-- **A single match** is put into the line. -/
theorem console_param_completion_eq {lay : ParamLayer L} (hlist : lay.list = some l)
    (hl : Linked h l zs) {needle : CString} (compbuf : Compbuf E)
    (hmatch : (zs.reverse.filter fun e => needle.startsNoCase (data e).name) = [param]) :
    ∃ compbuf', console_param_completion h data (some lay) needle compbuf =
      some (1, paramPrompt (data param).name, compbuf', [(data param).2.listing]) := by
  have hmatches : (CompletionCall.mk h (fun e => (data e).name) needle zs hl).matches = [param] :=
    hmatch
  obtain ⟨compbuf', hcall, hread⟩ := (CompletionCall.exact_iff
    ⟨h, fun e => (data e).name, needle, zs, hl⟩ compbuf).mpr
      (Or.inl (by rw [hmatches, List.length_singleton]; decide))
  rw [hmatches] at hread
  have hhits := hits_of_readsAs hread (Nat.zero_add _) (Nat.zero_le _)
  have hparams : (lay.filt.map Prod.snd).or lay.parameters = some l := hlist
  have hcompletion : Linklist.completion h (fun e => (data e).name) l needle compbuf =
    some compbuf' := hcall
  refine ⟨compbuf', ?_⟩
  rw [console_param_completion]
  simp only [hparams, hcompletion, Option.bind_some, hhits]
  rfl

/-- **When a completed line names its parameter**, whatever value follows: its name is short enough
for the `=`. -/
theorem completed_line_iff (hparam : param ∈ zs)
    (hequals : CHAR_EQUALS ∉ (data param).name.chars) :
    (∀ v : CString, v.skipBlanks.strlen ≠ 0 →
      ∃ i, Names data zs (paramPrompt (data param).name ++ v) i param v.skipBlanks) ↔
      (data param).name.strlen ≤ 253 := by
  constructor
  · intro h
    by_contra hlong
    obtain ⟨i, -, name, hline, -⟩ := h zeroText (by decide)
    rw [paramLine_of_long hequals (not_le.mp hlong)] at hline
    cases hline
  · intro hshort v hv
    obtain ⟨i, hi⟩ := List.getElem?_of_mem hparam
    exact ⟨i, hi, _, paramLine_of_short hequals hshort hv, by simp [CString.sameNoCase]⟩

/-- A parameter `a` with a callback or without. -/
def amount (filter_set_f : Option ℕ) : ℕ → AnyParameter := fun _ =>
  ⟨.NUMBER, { unnamed .NUMBER with name := .literal ['a'], filter_set_f := filter_set_f }⟩

/-- A layer whose selected filter has parameters. -/
def filtered : ParamLayer Unit where
  name := .literal ['l']
  filt := some (.literal ['f'], ())
  parameters := none

/-- The line `a=1`. -/
def amountLine (digit : Char) : CString := .literal ['a', '=', digit]

theorem names_amount (filter_set_f : Option ℕ) (digit : Char) (value : CString)
    (hline : (amountLine digit).paramLine = some (.literal ['a'], value)) :
    Names (amount filter_set_f) [0] (amountLine digit) 0 0 value :=
  ⟨rfl, _, hline, by simp [amount, AnyParameter.name, CString.sameNoCase]⟩

end FreeJ
