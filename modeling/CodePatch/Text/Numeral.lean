/-
# Numerals

Reading a whole text as one integer of a bounded range.  An unsigned numeral
may carry a plus sign, a signed one either sign; no blank, underscore or radix
mark belongs to it.  Digits are read from the left, and the first one that is
no digit or that leaves the range decides which error is reported.
-/
import CodePatch.Text.Ascii

namespace CodePatch.Text

/-- Why a text is no numeral. -/
inductive NumeralError where
  | empty
  | invalidDigit
  | tooLarge
deriving DecidableEq, Repr

def NumeralError.message : NumeralError → String
  | .empty => "cannot parse integer from empty string"
  | .invalidDigit => "invalid digit found in string"
  | .tooLarge => "number too large to fit in target type"

/-- Reads digits behind those whose value is `value`, staying below `limit`. -/
def readDigits (radix limit : Nat) : Nat → List Char → Except NumeralError Nat
  | value, [] => .ok value
  | value, c :: rest =>
    match digit? radix c with
    | none => .error .invalidDigit
    | some d =>
      if value * radix + d < limit then readDigits radix limit (value * radix + d) rest
      else .error .tooLarge

/-- An unsigned numeral below `limit`. -/
def readUnsigned (radix limit : Nat) : List Char → Except NumeralError Nat
  | [] => .error .empty
  | ['+'] => .error .invalidDigit
  | '+' :: digits => readDigits radix limit 0 digits
  | digits => readDigits radix limit 0 digits

/-- A signed numeral in the two's-complement range of `bits` bits. -/
def readSigned (radix bits : Nat) : List Char → Except NumeralError Int
  | [] => .error .empty
  | ['+'] => .error .invalidDigit
  | ['-'] => .error .invalidDigit
  | '+' :: digits => (readDigits radix (1 <<< (bits - 1)) 0 digits).map Int.ofNat
  | '-' :: digits => (readDigits radix (1 <<< (bits - 1) + 1) 0 digits).map fun n => -(n : Int)
  | digits => (readDigits radix (1 <<< (bits - 1)) 0 digits).map Int.ofNat

/-- An address in hexadecimal, with or without `0x` before the digits. -/
def readHexAddress (digits : List Char) : Except NumeralError UInt32 :=
  (readUnsigned 16 UInt32.size ((afterHexMark? digits).getD digits)).map UInt32.ofNat

end CodePatch.Text
