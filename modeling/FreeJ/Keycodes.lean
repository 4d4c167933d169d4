import Mathlib.Data.Int.Basic

/-!
# Key Codes

`keycodes.h`: the characters and the codes that the key handlers of the console tell apart,
with the codes of S-Lang's own arrow and enter keys.
-/

namespace FreeJ

/-- `CHAR` -/
abbrev CHAR := BitVec 8

/-- `EOL`, and also `EOT` -/
def EOL : CHAR := 0x0

/-- `CHAR_BLANK` -/
def CHAR_BLANK : CHAR := 0x20

/-- The character that a key code is stored as. -/
def charOf (key : ℤ) : CHAR := BitVec.ofInt 8 key

def KEY_NEWLINE : ℤ := 10
def KEY_ENTER : ℤ := 13
def KEY_BACKSPACE_ASCII : ℤ := 8
def KEY_BACKSPACE : ℤ := 275
def KEY_BACKSPACE_APPLE : ℤ := 127
def KEY_BACKSPACE_SOMETIMES : ℤ := 272
def KEY_UP : ℤ := 257
def KEY_DOWN : ℤ := 258
def KEY_LEFT : ℤ := 259
def KEY_RIGHT : ℤ := 260
def KEY_PAGE_UP : ℤ := 261
def KEY_PAGE_DOWN : ℤ := 262
def KEY_HOME : ℤ := 263
def KEY_TAB : ℤ := 9
def KEY_CTRL_A : ℤ := 1
def KEY_CTRL_D : ℤ := 4
def KEY_CTRL_E : ℤ := 5
def KEY_CTRL_G : ℤ := 7
def KEY_CTRL_K : ℤ := 11
def KEY_CTRL_L : ℤ := 12
def KEY_CTRL_U : ℤ := 21

/-- S-Lang's codes for the arrow keys. -/
def SL_KEY_UP : ℤ := 257
def SL_KEY_DOWN : ℤ := 258
def SL_KEY_LEFT : ℤ := 259
def SL_KEY_RIGHT : ℤ := 260

/-- S-Lang's code for the enter key. -/
def SL_KEY_ENTER : ℤ := 273

end FreeJ
