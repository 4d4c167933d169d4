import FreeJ.BinaryFloats
import FreeJ.CString

/-!
# Floating-Point Numbers as Text

The conversions `%le` of `sscanf` and `%.2f` of `printf`, in the C locale. A number that is read
has an optional sign and is decimal or hexadecimal, an infinity, or not a number; as much is taken
from the text as could begin one, and if that is not complete, as in `1e` or `0x`, there is no
number. A value is rounded to the nearest double precision number; one that is written is rounded
to two decimals.

## Main results

* `length_scanDoubles_le`: no more numbers are read than were asked for.
-/

namespace FreeJ

open Float.Model (UnpackedFloat)

/-- `isspace` -/
def isspace (c : CHAR) : Bool := c = CHAR_BLANK ∨ 0x09 ≤ c.toNat ∧ c.toNat ≤ 0x0d

/-- What a character stands for in a number of the base. -/
def digitOf (base : ℕ) (c : CHAR) : Option ℕ :=
  let n := (CString.tolower c).toNat
  if 0x30 ≤ n ∧ n ≤ 0x39 then some (n - 0x30)
  else if 0x61 ≤ n ∧ n < 0x61 + (base - 10) then some (n - 0x61 + 10)
  else none

/-- The digits in front: what they and the `m` before them stand for, how many they are, and what
follows them. -/
def scanDigits (base : ℕ) : ℕ → List CHAR → ℕ × ℕ × List CHAR
  | m, [] => (m, 0, [])
  | m, c :: cs =>
    match digitOf base c with
    | none => (m, 0, c :: cs)
    | some d =>
      let (m, n, rest) := scanDigits base (m * base + d) cs
      (m, n + 1, rest)

/-- Digits with a point between them, or none: what they stand for without it, how many they are,
and how many of them are behind it. -/
def scanMantissa (base : ℕ) (cs : List CHAR) : ℕ × ℕ × ℕ × List CHAR :=
  let (m, n, rest) := scanDigits base 0 cs
  match rest with
  | [] => (m, n, 0, [])
  | c :: cs =>
    if c = CHAR_DOT then
      let (m, k, rest) := scanDigits base m cs
      (m, n + k, k, rest)
    else (m, n, 0, c :: cs)

/-- An optional sign. -/
def scanSign : List CHAR → UnpackedFloat.Sign × List CHAR
  | [] => (.positive, [])
  | c :: cs =>
    if c = 0x2d then (.negative, cs) else if c = 0x2b then (.positive, cs)
    else (.positive, c :: cs)

/-- An optional exponent, behind its letter; there is no number if there is no digit. -/
def scanExponent (letter : CHAR) : List CHAR → Option (ℤ × List CHAR)
  | [] => some (0, [])
  | c :: cs =>
    if CString.tolower c = letter then
      let (s, cs) := scanSign cs
      match s, scanDigits 10 0 cs with
      | _, (_, 0, _) => none
      | .positive, (x, _ + 1, rest) => some (x, rest)
      | .negative, (x, _ + 1, rest) => some (-x, rest)
    else some (0, c :: cs)

/-- A decimal number. -/
def scanDecimal (cs : List CHAR) : Option (UnpackedFloat × List CHAR) :=
  match scanMantissa 10 cs with
  | (_, 0, _, _) => none
  | (m, _ + 1, k, rest) =>
    (scanExponent 0x65 rest).map fun (x, rest) => (.ofScientific .binary64 m (x - k), rest)

/-- A hexadecimal number, behind its `0x`. -/
def scanHexadecimal (cs : List CHAR) : Option (UnpackedFloat × List CHAR) :=
  match scanMantissa 16 cs with
  | (_, 0, _, _) => none
  | (m, _ + 1, k, rest) =>
    (scanExponent 0x70 rest).map fun (x, rest) => (.round .binary64 .positive m (x - 4 * k), rest)

/-- How many characters in front are those of a word, in capitals or not. -/
def matchWord : List Char → List CHAR → ℕ
  | w :: ws, c :: cs =>
    if CString.tolower c = BitVec.ofNat 8 w.toNat then matchWord ws cs + 1 else 0
  | _, _ => 0

/-- What may follow `nan`: letters, digits and underscores in brackets. -/
def scanPayload : List CHAR → Option (List CHAR)
  | [] => some []
  | c :: cs =>
    if c = 0x28 then
      match cs.dropWhile fun c => (digitOf 36 c).isSome || c = 0x5f with
      | [] => none
      | c :: cs => if c = 0x29 then some cs else none
    else some (c :: cs)

/-- A number without a sign. -/
def scanUnsigned : List CHAR → Option (UnpackedFloat × List CHAR)
  | [] => none
  | c :: cs =>
    if CString.tolower c = 0x69 then
      let n := matchWord "infinity".toList (c :: cs)
      if n = 3 ∨ n = 8 then some (.infinity .positive, (c :: cs).drop n) else none
    else if CString.tolower c = 0x6e then
      if matchWord "nan".toList (c :: cs) = 3 then
        (scanPayload ((c :: cs).drop 3)).map fun rest => (.notANumber, rest)
      else none
    else if c = 0x30 ∧ (cs.head?.map CString.tolower) = some 0x78 then scanHexadecimal cs.tail
    else scanDecimal (c :: cs)

/-- `%le` -/
def scanDouble (cs : List CHAR) : Option (Float.Model × List CHAR) :=
  let (s, cs) := scanSign (cs.dropWhile isspace)
  (scanUnsigned cs).map fun (u, rest) =>
    match s with
    | .positive => (.pack u, rest)
    | .negative => (.pack u.neg, rest)

/-- `%le %le` and so on: the numbers up to the first that is not there. -/
def scanDoubles : ℕ → List CHAR → List Float.Model
  | 0, _ => []
  | n + 1, cs =>
    match scanDouble cs with
    | none => []
    | some (v, rest) => v :: scanDoubles n rest

theorem length_scanDoubles_le (n : ℕ) (cs : List CHAR) : (scanDoubles n cs).length ≤ n := by
  induction n generalizing cs with
  | zero => exact Nat.le_refl 0
  | succ n ih =>
      rw [scanDoubles]
      cases scanDouble cs with
      | none => exact Nat.zero_le _
      | some r => exact Nat.succ_le_succ (ih r.2)

theorem scanDoubles_one (cs : List CHAR) :
    scanDoubles 1 cs = [] ∨ ∃ v, scanDoubles 1 cs = [v] := by
  rw [scanDoubles]
  cases scanDouble cs with
  | none => exact Or.inl rfl
  | some r => exact Or.inr ⟨r.1, rfl⟩

/-- `0.5` is read, and then `1e` is not. -/
example : scanDoubles 2 (CString.literal "0.5 1e".toList).chars =
    [.pack (.ofScientific .binary64 5 (-1))] := by decide +kernel

/-- The hundredths of a number, rounded to the nearest, to the even one between two. -/
def hundredths (m : ℕ) : ℤ → ℕ
  | .ofNat e => m * 2 ^ e * 100
  | .negSucc e =>
    let d := 2 ^ (e + 1)
    let q := m * 100 / d
    match compare (2 * (m * 100 % d)) d with
    | .lt => q
    | .eq => q + q % 2
    | .gt => q + 1

/-- `%.2f` -/
def fixed2 (u : UnpackedFloat) : CString :=
  let sign : UnpackedFloat.Sign → List Char
    | .positive => []
    | .negative => ['-']
  let decimals (n : ℕ) := Nat.toDigits 10 (n / 100) ++ '.' :: [Nat.digitChar (n / 10 % 10),
    Nat.digitChar (n % 10)]
  .literal <| match u with
    | .notANumber => "nan".toList
    | .infinity s => sign s ++ "inf".toList
    | .zero s => sign s ++ decimals 0
    | .finite s m e _ => sign s ++ decimals (hundredths m e)

/-- An eighth is halfway, and the even digit is written. -/
example : fixed2 (.finite .negative 9 (-3) (by decide)) = .literal "-1.12".toList := by decide

end FreeJ
