/-
# Hexadecimal text

How numbers and bytes are shown in base sixteen.  Addresses in messages carry
eight lower-case digits behind `0x`, those in listings eight upper-case ones;
offsets carry no padding.  Bytes travel as two lower-case digits each, with
nothing between them.
-/
import CodePatch.Text.Ascii

namespace CodePatch.Text

/-- `n` in base sixteen, lower case, with as many digits as it needs. -/
def hex (n : Nat) : String :=
  String.ofList (Nat.toDigits 16 n)

/-- `n` in base sixteen, upper case, with as many digits as it needs. -/
def hexUpper (n : Nat) : String :=
  String.ofList ((Nat.toDigits 16 n).map Char.toUpper)

/-- `text` with `fill` before it, up to `width` characters. -/
def padStart (width : Nat) (fill : Char) (text : String) : String :=
  String.ofList (List.replicate (width - text.length) fill) ++ text

/-- `text` with spaces behind it, up to `width` characters. -/
def padEnd (width : Nat) (text : String) : String :=
  text ++ String.ofList (List.replicate (width - text.length) ' ')

/-- An address as messages show it. -/
def address (a : UInt32) : String :=
  "0x" ++ padStart 8 '0' (hex a.toNat)

/-- An address as listings show it. -/
def addressUpper (a : UInt32) : String :=
  "0x" ++ padStart 8 '0' (hexUpper a.toNat)

/-- The two lower-case digits of a byte. -/
def byteDigits (b : UInt8) : List Char :=
  [Nat.digitChar (b.toNat / 16), Nat.digitChar (b.toNat % 16)]

/-- The two upper-case digits of a byte. -/
def byteUpper (b : UInt8) : String :=
  String.ofList ((byteDigits b).map Char.toUpper)

/-- Two lower-case digits for each byte. -/
def ofBytes (bytes : List UInt8) : String :=
  String.ofList (bytes.flatMap byteDigits)

/-- The bytes whose digits are `cs`; `none` for an odd number of digits or for
anything that is no digit. -/
def bytesOf? : List Char → Option (List UInt8)
  | [] => some []
  | [_] => none
  | high :: low :: rest => do
    let h ← hexDigit? high
    let l ← hexDigit? low
    let bytes ← bytesOf? rest
    return UInt8.ofNat (16 * h + l) :: bytes

/-- Reading the digits of bytes gives the bytes back. -/
theorem bytesOf?_ofBytes (bytes : List UInt8) :
    bytesOf? (bytes.flatMap byteDigits) = some bytes := by
  have digits : ∀ b : UInt8, hexDigit? (Nat.digitChar (b.toNat / 16)) = some (b.toNat / 16) ∧
      hexDigit? (Nat.digitChar (b.toNat % 16)) = some (b.toNat % 16) := by
    intro b
    have low : ∀ n : Fin 16, hexDigit? (Nat.digitChar n.val) = some n.val := by decide
    have hb := b.toNat_lt
    exact ⟨low ⟨b.toNat / 16, by omega⟩, low ⟨b.toNat % 16, by omega⟩⟩
  induction bytes with
  | nil => rfl
  | cons b bs ih =>
    obtain ⟨hh, hl⟩ := digits b
    have hb : UInt8.ofNat (16 * (b.toNat / 16) + b.toNat % 16) = b := by
      rw [Nat.div_add_mod]; exact UInt8.ofNat_toNat
    have step : (b :: bs).flatMap byteDigits =
        Nat.digitChar (b.toNat / 16) :: Nat.digitChar (b.toNat % 16) :: bs.flatMap byteDigits := rfl
    rw [step, bytesOf?, hh, hl, ih]
    exact congrArg (fun x => some (x :: bs)) hb

end CodePatch.Text
