import FreeJ.FloatText

/-!
# Parameters

A `Parameter` of a filter, a layer or a blit keeps its value in allocated memory, as many bytes as
its type asks for. `set` stores a value, after a range check and the multiplication with the
multiplier if it is a number; `parse` reads one from a string first.

The memory around the allocated bytes is part of the cells, and the cells that the last `set`
wrote are the touched ones. What `parse` reads is counted, the memory behind the string included,
and local variables that `sscanf` has not assigned are what the stack held.

## Main results

* `parse_right_iff`: when `parse` stores a complete value or leaves everything as it was.
* `set_within_iff`: when `set` stays inside the allocated bytes.
-/

namespace FreeJ

open Float.Model (UnpackedFloat)

/-- `Parameter::Type` -/
inductive ParameterType
  | BOOL
  | NUMBER
  | COLOR
  | POSITION
  | STRING
  deriving DecidableEq, Repr

/-- `Parameter::value_size` -/
def ParameterType.value_size : ParameterType → ℕ
  | .BOOL => 1
  | .NUMBER => 8
  | .COLOR => 8 * 3
  | .POSITION => 8 * 2
  | .STRING => 512

/-- What `val` points to. -/
abbrev ParameterType.Value : ParameterType → Type
  | .BOOL => Bool
  | .NUMBER => Float.Model
  | .COLOR => Fin 3 → Float.Model
  | .POSITION => Fin 2 → Float.Model
  | .STRING => CString

/-- The bytes of a value. -/
def ParameterType.bytes : (type : ParameterType) → type.Value → List CHAR
  | .BOOL, val => [if val then 1 else 0]
  | .NUMBER, val => val.bytes
  | .COLOR, val => (val 0).bytes ++ (val 1).bytes ++ (val 2).bytes
  | .POSITION, val => (val 0).bytes ++ (val 1).bytes
  | .STRING, val => val.chars ++ [EOL]

/-- `Parameter`; a callback is known by its address. -/
structure Parameter (type : ParameterType) where
  name : CString
  description : CString
  value : Cells CHAR
  changed : Bool
  multiplier : Float32.Model
  layer_set_f : Option ℕ
  filter_set_f : Option ℕ

/-- `Parameter::Parameter`, where the memory that it allocates is at the start of some memory. -/
def Parameter.new (type : ParameterType) (memory : ℤ → CHAR) : Parameter type where
  name := .ofString "unnamed"
  description := .ofString " "
  value := ⟨fun i => if 0 ≤ i ∧ i < type.value_size then 0 else memory i, []⟩
  changed := false
  multiplier := .ofNat 1
  layer_set_f := none
  filter_set_f := none

variable {type : ParameterType}

/-- A number times the multiplier. -/
def Parameter.scale (p : Parameter type) (v : Float.Model) : Float.Model :=
  if p.multiplier.toDouble != .ofNat 1 then v * p.multiplier.toDouble else v

/-- Write to `value`. -/
def Parameter.store (p : Parameter type) (bytes : List CHAR) : Parameter type :=
  { p with value := Cells.write ⟨p.value.cell, []⟩ 0 bytes, changed := true }

/-- `Parameter::set` -/
def Parameter.set {type : ParameterType} (p : Parameter type) (val : type.Value) :
    Bool × Parameter type × List Message :=
  match type, p, val with
  | .NUMBER, p, v =>
    -- range check (input is always 0.0 - 1.0)
    if v < .ofNat 0 ∨ .ofNat 1 < v then
      (false, p, [.error (p.name ++ .ofString " parameter: value " ++ fixed2 v.unpack ++
        .ofString " out of range")])
    else (true, p.store (ParameterType.bytes .NUMBER (p.scale v)), [])
  | .BOOL, p, val => (true, p.store (ParameterType.bytes .BOOL val), [])
  | .POSITION, p, val => (true, p.store (ParameterType.bytes .POSITION val), [])
  | .COLOR, p, val => (true, p.store (ParameterType.bytes .COLOR val), [])
  | .STRING, p, val => (true, p.store (ParameterType.bytes .STRING val), [])

/-- `'0'` or `'1'` -/
def isBool (c : CHAR) : Bool := c = 0x30 ∨ c = 0x31

/-- `for(pp = p; (*pp != '1') & (*pp != '0'); pp++)`, from `p[i]` on with less than `n` rounds: the
index of the digit, unless the loop has come too far. -/
def findBool (memory : ℕ → CHAR) : ℕ → ℕ → Option ℕ
  | 0, _ => none
  | n + 1, i =>
    if isBool (memory i) then some i
    else if 128 < i then none
    else findBool memory n (i + 1)

theorem eol_notMem_read (m : Cells CHAR) (n : ℕ) (i : ℤ) : EOL ∉ m.readUntil EOL n i :=
  m.notMem_readUntil n i

/-- The string at `i`, of `n` characters at most. -/
def CString.read (m : Cells CHAR) (n : ℕ) (i : ℤ) : CString where
  chars := m.readUntil EOL n i
  noEOL := eol_notMem_read m n i

/-- The string, and the memory behind what ends it. -/
def CString.followedBy (s : CString) (behind : ℕ → CHAR) (i : ℕ) : CHAR :=
  if i ≤ s.strlen then s.at i else behind i

/-- What `Parameter::parse` returns and leaves, whether a value was stored, and how many characters
of its argument were read. -/
structure Parsed (type : ParameterType) where
  ret : Bool
  stored : Bool
  parameter : Parameter type
  read : ℕ
  messages : List Message

/-- `error parsing value [%s] for parameter %s`, or another word for the value. -/
def Parameter.parseError (p : Parameter type) (what s : CString) : Message :=
  .error (.ofString "error parsing " ++ what ++ .ofString " [" ++ s ++
    .ofString "] for parameter " ++ p.name)

/-- The end of `parse`: the value is set, whatever `set` returns. -/
def Parameter.parsed (p : Parameter type) (val : type.Value) (read : ℕ) : Parsed type where
  ret := true
  stored := (p.set val).1
  parameter := (p.set val).2.1
  read := read
  messages := (p.set val).2.2

/-- `parse` for `n` numbers, which make up a value. -/
def Parameter.parseDoubles (p : Parameter type) (n : ℕ) (val : (Fin n → Float.Model) → type.Value)
    (s : CString) (stack : ℕ → Float.Model) : Parsed type :=
  match scanDoubles n s.chars with
  | [] => ⟨false, false, p, s.strlen + 1, [p.parseError (.ofString "position") s]⟩
  | vals => p.parsed (val fun i => vals.getD i (stack i)) (s.strlen + 1)

/-- `Parameter::parse` -/
def Parameter.parse {type : ParameterType} (p : Parameter type) (s : CString)
    (behind : ℕ → CHAR) (stack : ℕ → Float.Model) : Parsed type :=
  match type, p with
  | .NUMBER, p =>
    match scanDoubles 1 s.chars with
    | [] => ⟨false, false, p, s.strlen + 1, [p.parseError (.ofString "value") s]⟩
    | val :: _ => p.parsed val (s.strlen + 1)
  | .BOOL, p =>
    match findBool (s.followedBy behind) 130 0 with
    | none => ⟨false, false, p, 130, [p.parseError (.ofString "value") s]⟩
    | some i => p.parsed (s.followedBy behind i = 0x31 : Bool) (i + 1)
  | .POSITION, p => p.parseDoubles 2 id s stack
  | .COLOR, p => p.parseDoubles 3 id s stack
  | .STRING, p =>
    ⟨false, false, p, 0, [.error (.ofString
      "attempt to set value for a parameter of unknown type: 4")]⟩

/-! ### What `set` does -/

variable {p : Parameter type} {val : type.Value} {bytes : List CHAR} {s : CString} {read : ℕ}
  {behind : ℕ → CHAR} {stack : ℕ → Float.Model}

/-- The bytes that a value is stored as. -/
def Parameter.stored {type : ParameterType} (p : Parameter type) (val : type.Value) : List CHAR :=
  match type, p, val with
  | .NUMBER, p, v => ParameterType.bytes .NUMBER (p.scale v)
  | .BOOL, _, val => ParameterType.bytes .BOOL val
  | .POSITION, _, val => ParameterType.bytes .POSITION val
  | .COLOR, _, val => ParameterType.bytes .COLOR val
  | .STRING, _, val => ParameterType.bytes .STRING val

/-- `set` stores the value, or changes nothing. -/
theorem Parameter.set_cases (p : Parameter type) (val : type.Value) :
    ((p.set val).1 = true ∧ (p.set val).2.1 = p.store (p.stored val)) ∨
      ((p.set val).1 = false ∧ (p.set val).2.1 = p) := by
  cases type with
  | NUMBER =>
      rw [Parameter.set]
      split
      · exact Or.inr ⟨rfl, rfl⟩
      · exact Or.inl ⟨rfl, rfl⟩
  | BOOL => exact Or.inl ⟨rfl, rfl⟩
  | COLOR => exact Or.inl ⟨rfl, rfl⟩
  | POSITION => exact Or.inl ⟨rfl, rfl⟩
  | STRING => exact Or.inl ⟨rfl, rfl⟩

theorem Parameter.set_of_accepted (h : (p.set val).1 = true) :
    (p.set val).2.1 = p.store (p.stored val) := by
  obtain ⟨-, heq⟩ | ⟨hret, -⟩ := p.set_cases val
  · exact heq
  · exact absurd (h.symm.trans hret) (by decide)

/-- A number from 0 to 1 is accepted. -/
theorem Parameter.set_number {p : Parameter .NUMBER} {v : Float.Model} (h0 : .ofNat 0 ≤ v)
    (h1 : v ≤ .ofNat 1) : (p.set v).1 = true := by
  have hrange : ¬ (v < .ofNat 0 ∨ .ofNat 1 < v) :=
    not_or.mpr ⟨Float.Model.not_lt_of_le h0, Float.Model.not_lt_of_le h1⟩
  rw [Parameter.set, if_neg hrange]

theorem Parameter.store_holds : (p.store bytes).value.Holds 0 bytes := Cells.write_holds

theorem Parameter.store_within {n : ℕ} :
    (p.store bytes).value.Within 0 n ↔ bytes.length ≤ n := by
  refine Cells.UpTo.within_iff fun j => ?_
  rw [Parameter.store, Cells.mem_touched_write, Int.zero_add]
  exact or_iff_right List.not_mem_nil

theorem Parameter.length_stored (p : Parameter type) (val : type.Value) (hne : type ≠ .STRING) :
    (p.stored val).length = type.value_size := by
  cases type with
  | NUMBER => exact Float.Model.length_bytes _
  | BOOL => rfl
  | COLOR => simp [Parameter.stored, ParameterType.bytes, ParameterType.value_size]
  | POSITION => simp [Parameter.stored, ParameterType.bytes, ParameterType.value_size]
  | STRING => exact absurd rfl hne

/-! ### What `parse` should do -/

/-- All the numbers that a position or a colour has. -/
def components (n : ℕ) (s : CString) : Option (Fin n → Float.Model) :=
  let vals := scanDoubles n s.chars
  if h : vals.length = n then some fun i => vals.get (i.cast h.symm) else none

/-- The complete value of a type that a string has, if it does. -/
def ParameterType.complete : (type : ParameterType) → CString → Option type.Value
  | .BOOL, s => (s.chars.findIdx? isBool).map fun i => (s.at i = 0x31 : Bool)
  | .NUMBER, s => (scanDoubles 1 s.chars).head?.filter fun v => .ofNat 0 ≤ v ∧ v ≤ .ofNat 1
  | .COLOR, s => components 3 s
  | .POSITION, s => components 2 s
  | .STRING, _ => none

/-- The value was stored if the string has a complete one, and otherwise nothing was; nothing
behind the string was read, and nothing behind `value` was written. -/
structure Parsed.Right (r : Parsed type) (p : Parameter type) (s : CString) : Prop where
  ret : r.ret = (type.complete s).isSome
  stored : r.stored = (type.complete s).isSome
  stores : ∀ val, type.complete s = some val →
    r.parameter.value.Holds 0 (p.stored val) ∧ r.parameter.changed = true ∧
      r.parameter.value.Within 0 type.value_size
  keeps : r.ret = false → r.parameter.value = p.value ∧ r.parameter.changed = p.changed
  reads : r.read ≤ s.strlen + 1

/-- The strings of which `parse` finds out whether they have a value. -/
def ParameterType.Parses : ParameterType → CString → Prop
  | .BOOL, s =>
    match s.chars.findIdx? isBool with
    | some i => i ≤ 129
    | none => 129 ≤ s.strlen
  | .NUMBER, s => ∀ v ∈ scanDoubles 1 s.chars, .ofNat 0 ≤ v ∧ v ≤ .ofNat 1
  | .COLOR, s => (scanDoubles 3 s.chars).length = 0 ∨ (scanDoubles 3 s.chars).length = 3
  | .POSITION, s => (scanDoubles 2 s.chars).length = 0 ∨ (scanDoubles 2 s.chars).length = 2
  | .STRING, _ => True

theorem Parsed.right_of_set (hne : type ≠ .STRING) (hset : (p.set val).1 = true)
    (hval : type.complete s = some val) (hread : read ≤ s.strlen + 1) :
    (p.parsed val read).Right p s where
  ret := by rw [hval]; rfl
  stored := by rw [hval]; exact hset
  stores := by
    intro val' hval'
    obtain rfl := Option.some.inj (hval.symm.trans hval')
    change ((p.set val).2.1.value.Holds 0 _ ∧ (p.set val).2.1.changed = true ∧
      (p.set val).2.1.value.Within 0 _)
    rw [Parameter.set_of_accepted hset]
    exact ⟨Parameter.store_holds, rfl,
      Parameter.store_within.mpr (p.length_stored val hne).le⟩
  keeps h := absurd h (by simp [Parameter.parsed])
  reads := hread

theorem Parsed.right_of_kept {messages : List Message} (hval : type.complete s = none)
    (hread : read ≤ s.strlen + 1) : Parsed.Right ⟨false, false, p, read, messages⟩ p s where
  ret := by rw [hval]; rfl
  stored := by rw [hval]; rfl
  stores val h := absurd (hval.symm.trans h) (Option.some_ne_none val).symm
  keeps _ := ⟨rfl, rfl⟩
  reads := hread

theorem Parsed.not_right_of_none (hval : type.complete s = none) :
    ¬ (p.parsed val read).Right p s := by
  intro h
  have hret := h.ret
  rw [hval] at hret
  cases hret

theorem parse_right_number (p : Parameter .NUMBER) (s : CString) (behind : ℕ → CHAR)
    (stack : ℕ → Float.Model) :
    (p.parse s behind stack).Right p s ↔ ParameterType.Parses .NUMBER s := by
  have hcomplete : ParameterType.complete .NUMBER s =
      (scanDoubles 1 s.chars).head?.filter fun v => .ofNat 0 ≤ v ∧ v ≤ .ofNat 1 := rfl
  rw [Parameter.parse, ParameterType.Parses]
  obtain hscan | ⟨v, hscan⟩ := scanDoubles_one s.chars
  · rw [hscan] at hcomplete ⊢
    exact iff_of_true (Parsed.right_of_kept hcomplete (Nat.le_refl _))
      fun v hv => absurd hv List.not_mem_nil
  · rw [hscan] at hcomplete ⊢
    rw [List.head?_cons] at hcomplete
    constructor
    · intro h w hw
      rw [List.mem_singleton.mp hw]
      by_contra hrange
      rw [Option.filter_some, if_neg (by simpa using hrange)] at hcomplete
      exact Parsed.not_right_of_none hcomplete h
    · intro h
      have hrange := h v (List.mem_singleton_self v)
      rw [Option.filter_some, if_pos (by simpa using hrange)] at hcomplete
      exact Parsed.right_of_set (by decide) (Parameter.set_number hrange.1 hrange.2) hcomplete
        (Nat.le_refl _)

/-- The loop that looks for a digit. -/
theorem findBool_spec (memory : ℕ → CHAR) {n i : ℕ} (hn : n + i = 130) :
    (∃ j, findBool memory n i = some j ∧ j ≤ 129 ∧ isBool (memory j) = true ∧
      ∀ k, i ≤ k → k < j → isBool (memory k) = false) ∨
    (findBool memory n i = none ∧ ∀ k, i ≤ k → k ≤ 129 → isBool (memory k) = false) := by
  induction n generalizing i with
  | zero => exact Or.inr ⟨rfl, fun k h1 h2 => by omega⟩
  | succ n ih =>
      rw [findBool]
      by_cases hi : isBool (memory i) = true
      · rw [if_pos hi]
        exact Or.inl ⟨i, rfl, by omega, hi, fun k h1 h2 => by omega⟩
      · rw [if_neg hi]
        have hno : isBool (memory i) = false := by simpa using hi
        have hstep : ∀ {k}, (i + 1 ≤ k → isBool (memory k) = false) → i ≤ k →
            isBool (memory k) = false := by
          intro k h hk
          obtain rfl | hlt := Nat.eq_or_lt_of_le hk
          · exact hno
          · exact h hlt
        by_cases hfar : 128 < i
        · rw [if_pos hfar]
          exact Or.inr ⟨rfl, fun k h1 h2 => hstep (fun h => by omega) h1⟩
        · rw [if_neg hfar]
          obtain ⟨j, hj, hle, hbool, hbefore⟩ | ⟨hj, hbefore⟩ := ih (by omega : n + (i + 1) = 130)
          · exact Or.inl ⟨j, hj, hle, hbool, fun k h1 h2 => hstep (fun h => hbefore k h h2) h1⟩
          · exact Or.inr ⟨hj, fun k h1 h2 => hstep (fun h => hbefore k h h2) h1⟩

/-- The characters of the string, in the memory. -/
theorem CString.followedBy_eq {i : ℕ} (hi : i < s.chars.length) :
    s.followedBy behind i = s.chars[i] := by
  rw [CString.followedBy, if_pos (show i ≤ s.strlen from hi.le), CString.at,
    List.getD_eq_getElem?_getD, List.getElem?_eq_getElem hi, Option.getD_some]

theorem CString.followedBy_end : s.followedBy behind s.strlen = EOL := by
  rw [CString.followedBy, if_pos (Nat.le_refl _), CString.at, List.getD_eq_getElem?_getD,
    List.getElem?_eq_none (show s.chars.length ≤ s.strlen from Nat.le_refl _), Option.getD_none]

/-- What the loop finds: the first digit of the string if that is near enough, and if there is
none, what is behind the string. -/
theorem findBool_cases (s : CString) (behind : ℕ → CHAR) :
    (∃ i, s.chars.findIdx? isBool = some i ∧ i < s.strlen ∧
      findBool (s.followedBy behind) 130 0 = if i ≤ 129 then some i else none) ∨
    (s.chars.findIdx? isBool = none ∧ findBool (s.followedBy behind) 130 0 = none) ∨
    (s.chars.findIdx? isBool = none ∧ s.strlen < 129 ∧
      ∃ j, findBool (s.followedBy behind) 130 0 = some j ∧ s.strlen < j) := by
  have hspec := findBool_spec (s.followedBy behind) (n := 130) (i := 0) rfl
  cases hfirst : s.chars.findIdx? isBool with
  | some i =>
      obtain ⟨hi, hbool, hbefore⟩ := List.findIdx?_eq_some_iff_getElem.mp hfirst
      refine Or.inl ⟨i, rfl, hi, ?_⟩
      have hread : ∀ k, k < i → isBool (s.followedBy behind k) = false := by
        intro k hk
        rw [CString.followedBy_eq (hk.trans hi)]
        simpa using hbefore k hk
      have hdigit : isBool (s.followedBy behind i) = true := by
        rwa [CString.followedBy_eq hi]
      obtain ⟨j, hj, hle, hjbool, hjbefore⟩ | ⟨hj, hnone⟩ := hspec
      · obtain rfl : j = i := by
          rcases Nat.lt_trichotomy j i with hlt | heq | hlt
          · exact absurd hjbool (by rw [hread j hlt]; decide)
          · exact heq
          · exact absurd hdigit (by rw [hjbefore i (Nat.zero_le i) hlt]; decide)
        rw [hj, if_pos hle]
      · rw [hj, if_neg fun hle => absurd hdigit (by rw [hnone i (Nat.zero_le i) hle]; decide)]
  | none =>
      refine Or.inr ?_
      obtain ⟨j, hj, hle, hjbool, -⟩ | ⟨hj, -⟩ := hspec
      · have hno : ∀ k, k ≤ s.strlen → isBool (s.followedBy behind k) = false := by
          intro k hk
          obtain rfl | hlt := Nat.eq_or_lt_of_le hk
          · rw [CString.followedBy_end]
            decide
          · rw [CString.followedBy_eq hlt]
            simpa using List.findIdx?_eq_none_iff.mp hfirst _ (List.getElem_mem hlt)
        have hbehind : s.strlen < j := by
          by_contra hlt
          exact absurd hjbool (by rw [hno j (by omega)]; decide)
        exact Or.inr ⟨rfl, by omega, j, hj, hbehind⟩
      · exact Or.inl ⟨rfl, hj⟩

theorem parse_right_bool (p : Parameter .BOOL) (s : CString) (behind : ℕ → CHAR)
    (stack : ℕ → Float.Model) :
    (p.parse s behind stack).Right p s ↔ ParameterType.Parses .BOOL s := by
  have hcomplete : ParameterType.complete .BOOL s =
      (s.chars.findIdx? isBool).map fun i => (s.at i = 0x31 : Bool) := rfl
  rw [Parameter.parse, ParameterType.Parses]
  obtain ⟨i, hfirst, hi, hfind⟩ | ⟨hfirst, hfind⟩ | ⟨hfirst, hlen, j, hfind, hj⟩ :=
    findBool_cases s behind
  · rw [hfirst, Option.map_some] at hcomplete
    rw [hfirst, hfind]
    by_cases hle : i ≤ 129
    · have hat : s.followedBy behind i = s.at i := if_pos hi.le
      rw [if_pos hle]
      refine iff_of_true (Parsed.right_of_set (by decide) rfl ?_ (Nat.succ_le_succ hi.le)) hle
      rw [hcomplete, hat]
    · rw [if_neg hle]
      refine iff_of_false (fun h => ?_) hle
      have hret := h.ret
      rw [hcomplete] at hret
      cases hret
  · rw [hfirst, Option.map_none] at hcomplete
    rw [hfirst, hfind]
    constructor
    · intro h
      have hreads : 130 ≤ s.strlen + 1 := h.reads
      exact Nat.le_of_succ_le_succ hreads
    · exact fun hlen => Parsed.right_of_kept hcomplete (Nat.succ_le_succ hlen)
  · rw [hfirst, Option.map_none] at hcomplete
    rw [hfirst, hfind]
    exact iff_of_false (Parsed.not_right_of_none hcomplete) (not_le.mpr hlen)

theorem components_eq {n : ℕ} (h : (scanDoubles n s.chars).length = n) (stack : ℕ → Float.Model) :
    components n s = some fun i : Fin n => (scanDoubles n s.chars).getD i (stack i) := by
  rw [components, dif_pos h]
  congr 1
  funext i
  have hi : i.val < (scanDoubles n s.chars).length := by rw [h]; exact i.isLt
  rw [List.getD_eq_getElem?_getD, List.getElem?_eq_getElem hi, Option.getD_some]
  rfl

theorem components_eq_none {n : ℕ} (h : (scanDoubles n s.chars).length ≠ n) :
    components n s = none := dif_neg h

theorem parseDoubles_right_iff {n : ℕ} {vals : (Fin n → Float.Model) → type.Value} (hn : n ≠ 0)
    (hne : type ≠ .STRING) (hset : ∀ val, (p.set val).1 = true)
    (hcomplete : type.complete s = (components n s).map vals) :
    (p.parseDoubles n vals s stack).Right p s ↔
      (scanDoubles n s.chars).length = 0 ∨ (scanDoubles n s.chars).length = n := by
  rw [Parameter.parseDoubles]
  by_cases hlen : (scanDoubles n s.chars).length = n
  · rw [components_eq hlen stack] at hcomplete
    cases hscan : scanDoubles n s.chars with
    | nil => rw [hscan] at hlen; exact absurd hlen.symm hn
    | cons v vs =>
        rw [hscan] at hcomplete hlen
        exact iff_of_true (Parsed.right_of_set hne (hset _) hcomplete (Nat.le_refl _)) (Or.inr hlen)
  · rw [components_eq_none hlen] at hcomplete
    cases hscan : scanDoubles n s.chars with
    | nil => exact iff_of_true (Parsed.right_of_kept hcomplete (Nat.le_refl _)) (Or.inl rfl)
    | cons v vs =>
        rw [hscan] at hlen
        exact iff_of_false (Parsed.not_right_of_none hcomplete)
          (not_or.mpr ⟨Nat.succ_ne_zero _, hlen⟩)

/-- **When `parse` is all or nothing**: the string has no number or one from 0 to 1; the first
digit of a truth value is not behind the 129th character, or there is none and the string is not
shorter; a position or a colour has all of its numbers or none. -/
theorem parse_right_iff (p : Parameter type) (s : CString) (behind : ℕ → CHAR)
    (stack : ℕ → Float.Model) : (p.parse s behind stack).Right p s ↔ type.Parses s := by
  cases type with
  | BOOL => exact parse_right_bool p s behind stack
  | NUMBER => exact parse_right_number p s behind stack
  | COLOR =>
      exact parseDoubles_right_iff (by decide) (by decide) (fun _ => rfl)
        (congrFun Option.map_id (components 3 s)).symm
  | POSITION =>
      exact parseDoubles_right_iff (by decide) (by decide) (fun _ => rfl)
        (congrFun Option.map_id (components 2 s)).symm
  | STRING => exact iff_of_true (Parsed.right_of_kept rfl (Nat.zero_le _)) trivial

/-! ### When nothing is stored -/

/-- The strings of which `parse` stores nothing, and behind which it reads nothing. -/
def ParameterType.Refuses : ParameterType → CString → Prop
  | .BOOL, s => s.chars.findIdx? isBool = none ∧ 129 ≤ s.strlen
  | .NUMBER, s => ∀ v ∈ scanDoubles 1 s.chars, v < .ofNat 0 ∨ .ofNat 1 < v
  | .COLOR, s => scanDoubles 3 s.chars = []
  | .POSITION, s => scanDoubles 2 s.chars = []
  | .STRING, _ => True

/-- Either nothing is stored and nothing changes, or a value is stored. -/
def Parsed.Settled (r : Parsed type) (p : Parameter type) : Prop :=
  (r.stored = false ∧ r.parameter = p) ∨
    (r.stored = true ∧ ∃ val, r.parameter = p.store (p.stored val))

theorem Parameter.parsed_settled : (p.parsed val read).Settled p := by
  obtain ⟨hret, heq⟩ | ⟨hret, heq⟩ := p.set_cases val
  · exact Or.inr ⟨hret, val, heq⟩
  · exact Or.inl ⟨hret, heq⟩

theorem Parameter.parseDoubles_settled {n : ℕ} {vals : (Fin n → Float.Model) → type.Value} :
    (p.parseDoubles n vals s stack).Settled p := by
  rw [Parameter.parseDoubles]
  cases scanDoubles n s.chars with
  | nil => exact Or.inl ⟨rfl, rfl⟩
  | cons v vs => exact Parameter.parsed_settled

theorem parse_settled (p : Parameter type) (s : CString) (behind : ℕ → CHAR)
    (stack : ℕ → Float.Model) : (p.parse s behind stack).Settled p := by
  cases type with
  | BOOL =>
      rw [Parameter.parse]
      cases findBool (s.followedBy behind) 130 0 with
      | none => exact Or.inl ⟨rfl, rfl⟩
      | some i => exact Parameter.parsed_settled
  | NUMBER =>
      rw [Parameter.parse]
      cases scanDoubles 1 s.chars with
      | nil => exact Or.inl ⟨rfl, rfl⟩
      | cons v vs => exact Parameter.parsed_settled
  | COLOR => exact Parameter.parseDoubles_settled
  | POSITION => exact Parameter.parseDoubles_settled
  | STRING => exact Or.inl ⟨rfl, rfl⟩

/-- A complete value that is stored is one that `parse` finds. -/
theorem parses_of_stored (p : Parameter type) (behind : ℕ → CHAR) (stack : ℕ → Float.Model)
    (hval : type.complete s = some val) (hstored : (p.parse s behind stack).stored = true) :
    type.Parses s := by
  cases type with
  | BOOL =>
      rw [ParameterType.Parses]
      rw [Parameter.parse] at hstored
      obtain ⟨i, hfirst, -, hfind⟩ | ⟨-, hfind⟩ | ⟨hfirst, -⟩ := findBool_cases s behind
      · rw [hfirst]
        rw [hfind] at hstored
        by_contra hle
        rw [if_neg hle] at hstored
        cases hstored
      · rw [hfind] at hstored
        cases hstored
      · rw [ParameterType.complete, hfirst] at hval
        cases hval
  | NUMBER =>
      intro v hv
      rw [ParameterType.complete] at hval
      obtain hscan | ⟨w, hscan⟩ := scanDoubles_one s.chars
      · rw [hscan] at hv
        cases hv
      · rw [hscan] at hv
        rw [hscan, List.head?_cons, Option.filter_eq_some_iff] at hval
        rw [List.mem_singleton.mp hv, Option.some.inj hval.1]
        simpa using hval.2
  | COLOR =>
      by_contra hno
      rw [ParameterType.Parses, not_or] at hno
      rw [ParameterType.complete, components_eq_none hno.2] at hval
      cases hval
  | POSITION =>
      by_contra hno
      rw [ParameterType.Parses, not_or] at hno
      rw [ParameterType.complete, components_eq_none hno.2] at hval
      cases hval
  | STRING => trivial

theorem refuses_number_iff (p : Parameter .NUMBER) (s : CString) (behind : ℕ → CHAR)
    (stack : ℕ → Float.Model) :
    (ParameterType.complete .NUMBER s = none ∧ (p.parse s behind stack).stored = false ∧
      (p.parse s behind stack).read ≤ s.strlen + 1) ↔ ParameterType.Refuses .NUMBER s := by
  rw [ParameterType.complete, Parameter.parse, ParameterType.Refuses]
  obtain hscan | ⟨v, hscan⟩ := scanDoubles_one s.chars
  · rw [hscan]
    exact iff_of_true ⟨rfl, rfl, Nat.le_refl _⟩ fun v hv => absurd hv List.not_mem_nil
  · rw [hscan]
    have hstored : (p.parsed v (s.strlen + 1)).stored = false ↔ v < .ofNat 0 ∨ .ofNat 1 < v := by
      rw [Parameter.parsed, Parameter.set]
      split
      · rename_i hrange
        exact iff_of_true rfl hrange
      · rename_i hrange
        exact iff_of_false (by simp) hrange
    constructor
    · intro h w hw
      rw [List.mem_singleton.mp hw]
      exact hstored.mp h.2.1
    · intro h
      have hrange := h v (List.mem_singleton_self v)
      have hno : ¬ (.ofNat 0 ≤ v ∧ v ≤ .ofNat 1) := by
        rintro ⟨h0, h1⟩
        exact hrange.elim (Float.Model.not_lt_of_le h0) (Float.Model.not_lt_of_le h1)
      rw [List.head?_cons, Option.filter_some, if_neg (by simpa using hno)]
      exact ⟨rfl, hstored.mpr hrange, Nat.le_refl _⟩

theorem refuses_bool_iff (p : Parameter .BOOL) (s : CString) (behind : ℕ → CHAR)
    (stack : ℕ → Float.Model) :
    (ParameterType.complete .BOOL s = none ∧ (p.parse s behind stack).stored = false ∧
      (p.parse s behind stack).read ≤ s.strlen + 1) ↔ ParameterType.Refuses .BOOL s := by
  rw [ParameterType.complete, Parameter.parse, ParameterType.Refuses]
  obtain ⟨i, hfirst, -, hfind⟩ | ⟨hfirst, hfind⟩ | ⟨hfirst, hlen, j, hfind, hj⟩ :=
    findBool_cases s behind
  · rw [hfirst]
    exact iff_of_false (fun h => absurd h.1 (by simp)) fun h => absurd h.1 (by simp)
  · rw [hfirst, hfind]
    exact ⟨fun h => ⟨rfl, Nat.le_of_succ_le_succ h.2.2⟩,
      fun h => ⟨rfl, rfl, Nat.succ_le_succ h.2⟩⟩
  · rw [hfirst, hfind]
    exact iff_of_false (fun h => absurd h.2.1 (by simp [Parameter.parsed, Parameter.set]))
      fun h => absurd h.2 (by omega)

theorem refuses_doubles_iff {n : ℕ} (p : Parameter type) (vals : (Fin n → Float.Model) → type.Value)
    (s : CString) (stack : ℕ → Float.Model) (hn : n ≠ 0) (hset : ∀ val, (p.set val).1 = true) :
    ((components n s).map vals = none ∧ (p.parseDoubles n vals s stack).stored = false ∧
      (p.parseDoubles n vals s stack).read ≤ s.strlen + 1) ↔ scanDoubles n s.chars = [] := by
  rw [Parameter.parseDoubles]
  cases hscan : scanDoubles n s.chars with
  | nil =>
      have hnone : components n s = none := components_eq_none (by rw [hscan]; exact hn.symm)
      rw [hnone]
      exact iff_of_true ⟨rfl, rfl, Nat.le_refl _⟩ rfl
  | cons v vs =>
      refine iff_of_false (fun h => ?_) (List.cons_ne_nil v vs)
      exact absurd ((hset _).symm.trans h.2.1) (by decide)

/-- **What `parse` does not store**, as it should be: there is no complete value. -/
theorem refuses_iff (p : Parameter type) (s : CString) (behind : ℕ → CHAR)
    (stack : ℕ → Float.Model) :
    (type.complete s = none ∧ (p.parse s behind stack).stored = false ∧
      (p.parse s behind stack).read ≤ s.strlen + 1) ↔ type.Refuses s := by
  cases type with
  | BOOL => exact refuses_bool_iff p s behind stack
  | NUMBER => exact refuses_number_iff p s behind stack
  | COLOR =>
      have hiff := refuses_doubles_iff p id s stack (by decide) fun _ => rfl
      rwa [Option.map_id] at hiff
  | POSITION =>
      have hiff := refuses_doubles_iff p id s stack (by decide) fun _ => rfl
      rwa [Option.map_id] at hiff
  | STRING => exact iff_of_true ⟨rfl, rfl, Nat.zero_le _⟩ trivial

/-- **When `set` stays inside** the allocated bytes: any value but a string of 512 characters. -/
theorem set_within_iff (p : Parameter .STRING) (s : CString) :
    (p.set s).2.1.value.Within 0 ParameterType.STRING.value_size ↔ s.strlen < 512 := by
  have hlen : (s.chars ++ [EOL]).length = s.strlen + 1 := List.length_append
  have hwithin : (p.set s).2.1.value.Within 0 512 ↔ (s.chars ++ [EOL]).length ≤ 512 :=
    Parameter.store_within
  rw [hlen] at hwithin
  exact hwithin

/-- A new parameter, with zeros around its value. -/
def unnamed (type : ParameterType) : Parameter type := .new type fun _ => 0

theorem eol_notMem_letters (n : ℕ) : EOL ∉ List.replicate n 0x61 :=
  fun h => absurd (List.eq_of_mem_replicate h) (by decide)

/-- A string of letters. -/
def letters (n : ℕ) : CString where
  chars := List.replicate n 0x61
  noEOL := eol_notMem_letters n

end FreeJ
