import FreeJ.Keycodes

/-!
# C Strings

The characters in front of a terminating null character.
-/

namespace FreeJ

/-- The characters of a string, without the one that ends it. -/
structure CString where
  chars : List CHAR
  noEOL : EOL ∉ chars
  deriving DecidableEq, Repr

namespace CString

variable {s t : CString}

@[ext] theorem ext (h : s.chars = t.chars) : s = t := by
  cases s
  cases t
  simpa using h

/-- `strlen` -/
def strlen (s : CString) : ℕ := s.chars.length

/-- One string after the other. -/
def append (s t : CString) : CString where
  chars := s.chars ++ t.chars
  noEOL := by simp [s.noEOL, t.noEOL]

instance : Append CString := ⟨append⟩

@[simp] theorem append_chars (s t : CString) : (s ++ t).chars = s.chars ++ t.chars := rfl

/-- `strncpy`: as much of a string as there is room for. -/
def take (s : CString) (n : ℕ) : CString where
  chars := s.chars.take n
  noEOL := fun h => s.noEOL (List.mem_of_mem_take h)

theorem take_of_le {n : ℕ} (h : s.strlen ≤ n) : s.take n = s :=
  ext (List.take_of_length_le h)

/-- `&s[i]` -/
def drop (s : CString) (i : ℕ) : CString where
  chars := s.chars.drop i
  noEOL := fun h => s.noEOL (List.mem_of_mem_drop h)

/-- The string of printable characters. -/
def literal (cs : List Char) : CString where
  chars := (cs.map fun c => BitVec.ofNat 8 c.toNat).filter (· ≠ EOL)
  noEOL := by simp

/-- The string of a text. -/
def ofString (text : String) : CString := literal text.toList

/-- `tolower`, in the C locale -/
def tolower (c : CHAR) : CHAR :=
  if 0x41 ≤ c.toNat ∧ c.toNat ≤ 0x5a then c + 0x20 else c

/-- `strcasecmp` returns 0. -/
def sameNoCase (s t : CString) : Bool :=
  s.chars.map tolower = t.chars.map tolower

end CString

/-- `s[i]`, for an `i` that is not behind the end of the string -/
def CString.at (s : CString) (i : ℕ) : CHAR := s.chars.getD i EOL

/-- `'.'` -/
def CHAR_DOT : CHAR := 0x2e

/-- What is written on the console. -/
inductive Message
  | notice (text : CString)
  | act (text : CString)
  | warning (text : CString)
  | error (text : CString)
  deriving DecidableEq, Repr

end FreeJ
