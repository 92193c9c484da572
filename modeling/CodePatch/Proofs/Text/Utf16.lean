/-
# Text as units of sixteen bits

A character of the basic plane is one unit.  Any other is a pair: a high surrogate with the ten
high bits of its distance from the end of the plane, and a low one with the ten low bits.  No
character is a surrogate itself, so units can be told apart one by one, and text is read back
from them from the left (`ofUtf16?_utf16`).

In memory a unit is two bytes, the low one first, and units are read back from bytes
(`ofUnitBytes?_unitBytes`).
-/
import CodePatch.LittleEndian
import CodePatch.Text.Encoding

namespace CodePatch.Text

/-! ## Units -/

/-- The first unit of a pair. -/
def isHighSurrogate (unit : UInt16) : Bool :=
  0xD800 ≤ unit.toNat && unit.toNat < 0xDC00

/-- The second unit of a pair. -/
def isLowSurrogate (unit : UInt16) : Bool :=
  0xDC00 ≤ unit.toNat && unit.toNat < 0xE000

/-- The character of a pair. -/
def pairedChar (high low : UInt16) : Char :=
  Char.ofNat (0x10000 + (high.toNat - 0xD800) * 0x400 + (low.toNat - 0xDC00))

/-- The text of units; `none` if there is a surrogate that is not in a pair. -/
def ofUtf16? : List UInt16 → Option (List Char)
  | [] => some []
  | unit :: rest =>
    if isHighSurrogate unit then
      match rest with
      | [] => none
      | low :: rest =>
        if isLowSurrogate low then (ofUtf16? rest).map (pairedChar unit low :: ·) else none
    else if isLowSurrogate unit then none
    else (ofUtf16? rest).map (Char.ofNat unit.toNat :: ·)

theorem ofUtf16?_basic {c : Char} (h : c.toNat < 0x10000) (rest : List UInt16) :
    ofUtf16? (UInt16.ofNat c.toNat :: rest) = (ofUtf16? rest).map (c :: ·) := by
  have hunit : (UInt16.ofNat c.toNat).toNat = c.toNat := UInt16.toNat_ofNat_of_lt' h
  have hvalid : c.toNat < 0xD800 ∨ 0xDFFF < c.toNat ∧ c.toNat < 0x110000 := c.valid
  have hhigh : ¬ isHighSurrogate (UInt16.ofNat c.toNat) = true := by
    simp only [isHighSurrogate, hunit, Bool.and_eq_true, decide_eq_true_eq]
    omega
  have hlow : ¬ isLowSurrogate (UInt16.ofNat c.toNat) = true := by
    simp only [isLowSurrogate, hunit, Bool.and_eq_true, decide_eq_true_eq]
    omega
  rw [ofUtf16?.eq_def]
  simp only [if_neg hhigh, if_neg hlow, hunit, Char.ofNat_toNat]

theorem ofUtf16?_pair {c : Char} (h : 0x10000 ≤ c.toNat) (rest : List UInt16) :
    ofUtf16? (UInt16.ofNat (0xD800 + (c.toNat - 0x10000) / 0x400) ::
        UInt16.ofNat (0xDC00 + (c.toNat - 0x10000) % 0x400) :: rest) =
      (ofUtf16? rest).map (c :: ·) := by
  have hvalid : c.toNat < 0xD800 ∨ 0xDFFF < c.toNat ∧ c.toNat < 0x110000 := c.valid
  generalize hbeyond : c.toNat - 0x10000 = beyond
  have hhigh : (UInt16.ofNat (0xD800 + beyond / 0x400)).toNat = 0xD800 + beyond / 0x400 :=
    UInt16.toNat_ofNat_of_lt' (show _ < 2 ^ 16 by omega)
  have hlow : (UInt16.ofNat (0xDC00 + beyond % 0x400)).toNat = 0xDC00 + beyond % 0x400 :=
    UInt16.toNat_ofNat_of_lt' (show _ < 2 ^ 16 by omega)
  have hfirst : isHighSurrogate (UInt16.ofNat (0xD800 + beyond / 0x400)) = true := by
    simp only [isHighSurrogate, hhigh, Bool.and_eq_true, decide_eq_true_eq]
    omega
  have hsecond : isLowSurrogate (UInt16.ofNat (0xDC00 + beyond % 0x400)) = true := by
    simp only [isLowSurrogate, hlow, Bool.and_eq_true, decide_eq_true_eq]
    omega
  have hchar : pairedChar (UInt16.ofNat (0xD800 + beyond / 0x400))
      (UInt16.ofNat (0xDC00 + beyond % 0x400)) = c := by
    have hplace : 0x10000 + (0xD800 + beyond / 0x400 - 0xD800) * 0x400 +
        (0xDC00 + beyond % 0x400 - 0xDC00) = c.toNat := by omega
    rw [pairedChar, hhigh, hlow, hplace, Char.ofNat_toNat]
  rw [ofUtf16?, if_pos hfirst]
  simp only [if_pos hsecond, hchar]

theorem ofUtf16?_utf16Units (c : Char) (rest : List UInt16) :
    ofUtf16? (utf16Units c ++ rest) = (ofUtf16? rest).map (c :: ·) := by
  rw [utf16Units]
  split
  · rename_i hbasic
    exact ofUtf16?_basic hbasic rest
  · rename_i hbeyond
    exact ofUtf16?_pair (Nat.not_lt.mp hbeyond) rest

theorem ofUtf16?_utf16 (text : String) : ofUtf16? (utf16 text) = some text.toList := by
  rw [utf16]
  induction text.toList with
  | nil => rfl
  | cons c rest ih => rw [List.flatMap_cons, ofUtf16?_utf16Units, ih, Option.map_some]

/-! ## Bytes -/

/-- The bytes of units, the low one of each first. -/
def unitBytes (units : List UInt16) : List UInt8 :=
  units.flatMap fun unit => littleEndian 2 unit.toNat

/-- The units of bytes; `none` for an odd number of them. -/
def ofUnitBytes? : List UInt8 → Option (List UInt16)
  | [] => some []
  | [_] => none
  | low :: high :: rest =>
    (ofUnitBytes? rest).map (UInt16.ofNat (ofLittleEndian [low, high]) :: ·)

theorem ofUnitBytes?_unitBytes (units : List UInt16) :
    ofUnitBytes? (unitBytes units) = some units := by
  induction units with
  | nil => rfl
  | cons unit rest ih =>
      have hunit : UInt16.ofNat (ofLittleEndian (littleEndian 2 unit.toNat)) = unit := by
        have hfits : unit.toNat % 1 <<< (8 * 2) = unit.toNat := Nat.mod_eq_of_lt unit.toNat_lt
        rw [ofLittleEndian_littleEndian, hfits, UInt16.ofNat_toNat]
      have hsplit : unitBytes (unit :: rest) = littleEndian 2 unit.toNat ++ unitBytes rest := rfl
      rw [hsplit]
      show (ofUnitBytes? (unitBytes rest)).map
        (UInt16.ofNat (ofLittleEndian (littleEndian 2 unit.toNat)) :: ·) = _
      rw [hunit, ih, Option.map_some]

theorem length_unitBytes (units : List UInt16) : (unitBytes units).length = 2 * units.length := by
  induction units with
  | nil => rfl
  | cons unit rest ih =>
      have hsplit : unitBytes (unit :: rest) = littleEndian 2 unit.toNat ++ unitBytes rest := rfl
      rw [hsplit, List.length_append, length_littleEndian, ih, List.length_cons]
      omega

end CodePatch.Text
