/-
# Numeric literals

A literal is decimal or hexadecimal, absolute or an offset from the base of
the main module:

    0x1F    hexadecimal
    Rx1F    hexadecimal, from the module's base
    R100    decimal, from the module's base
    1F      hexadecimal, since not all digits are decimal
    100     decimal

Marks are read in either case.  A literal starts with a digit or with `R`; the
run of its digits is as long as possible, and its value wraps.
-/
import CodePatch.Text.Ascii

namespace CodePatch.Literal

/-- The value of a run of digits, modulo `2 ^ 32`. -/
def value (radix : UInt32) (digits : List Char) : UInt32 :=
  digits.foldl (fun n c => n * radix + UInt32.ofNat ((Text.digit? radix.toNat c).getD 0)) 0

/-- The longest run of hexadecimal digits that `text` starts with. -/
def hexRun (text : List Char) : List Char :=
  text.takeWhile Text.isHexDigit

/-- The longest run of decimal digits that `text` starts with. -/
def decimalRun (text : List Char) : List Char :=
  text.takeWhile Char.isDigit

/-- The value of a run behind a mark, and the length of both; there must be a
digit. -/
def marked? (mark : Nat) (base radix : UInt32) (run : List Char) : Option (UInt32 × Nat) :=
  if run.isEmpty then none else some (base + value radix run, mark + run.length)

/-- A run that starts with a digit, without any mark. -/
def plain? (text : List Char) : Option (UInt32 × Nat) :=
  if text.head?.any Char.isDigit then
    let run := hexRun text
    some (value (if run.all Char.isDigit then 10 else 16) run, run.length)
  else none

/-- The literal that `text` starts with: its value and its length. -/
def atStart? (moduleBase : UInt32) (text : List Char) : Option (UInt32 × Nat) :=
  if Text.startsLike ['0', 'x'] text then marked? 2 0 16 (hexRun (text.drop 2))
  else if Text.startsLike ['r', 'x'] text then marked? 2 moduleBase 16 (hexRun (text.drop 2))
  else if Text.startsLike ['r'] text then marked? 1 moduleBase 10 (decimalRun (text.drop 1))
  else plain? text

end CodePatch.Literal
