/-
# Hexadecimal digits in either case

Numbers and bytes are read in both cases of the letters.  `hexDigits` prints in the case
that is asked for, and what it prints is a numeral of the number (`isNumeral_hexDigits`),
which is read back therefore (`readUnsigned_hexDigits`), as are the digits of a byte.  In
base ten there are no letters, and the same holds (`isNumeral_decimal`).  Addresses are
printed in eight digits, with zeros in front (`isNumeral_paddedHex`).
-/
import CodePatch.Proofs.Text.Numeral
import CodePatch.Text.Hex

namespace CodePatch.Text

/-- A letter in the case that is asked for. -/
def cased (upper : Bool) (c : Char) : Char :=
  if upper then c.toUpper else c

/-- `n` in base sixteen, with as many digits as it needs. -/
def hexDigits (upper : Bool) (n : Nat) : List Char :=
  (Nat.toDigits 16 n).map (cased upper)

/-- The two digits of a byte. -/
def byteInHex (upper : Bool) (b : UInt8) : List Char :=
  (byteDigits b).map (cased upper)

theorem hexDigit?_cased (upper : Bool) {d : Nat} (h : d < 16) :
    hexDigit? (cased upper (Nat.digitChar d)) = some d := by
  have hall : ∀ upper, ∀ d : Fin 16,
      hexDigit? (cased upper (Nat.digitChar d.val)) = some d.val := by decide
  exact hall upper ⟨d, h⟩

theorem digit?_cased (upper : Bool) {radix d : Nat} (hradix : radix ≤ 16) (h : d < radix) :
    digit? radix (cased upper (Nat.digitChar d)) = some d :=
  digit?_eq_some_iff.mpr ⟨hexDigit?_cased upper (Nat.lt_of_lt_of_le h hradix), h⟩

/-! ## Numbers -/

theorem isNumeral_toDigits (upper : Bool) {radix : Nat} (hlow : 1 < radix) (hhigh : radix ≤ 16)
    (n : Nat) : IsNumeral radix ((Nat.toDigits radix n).map (cased upper)) n := by
  induction n using Nat.strongRecOn with
  | ind n ih =>
      by_cases hlt : n < radix
      · rw [Nat.toDigits_of_lt_base hlt]
        exact .digit (digit?_cased upper hhigh hlt)
      · have hle : radix ≤ n := Nat.not_lt.mp hlt
        have hfront := ih (n / radix) (Nat.div_lt_self (by omega) hlow)
        have hmore := hfront.more (digit?_cased upper hhigh (Nat.mod_lt n (by omega)))
        rw [Nat.toDigits_of_base_le hlow hle, List.map_append]
        rwa [Nat.div_add_mod' n radix] at hmore

theorem isNumeral_hexDigits (upper : Bool) (n : Nat) : IsNumeral 16 (hexDigits upper n) n :=
  isNumeral_toDigits upper (by decide) (Nat.le_refl 16) n

theorem isNumeral_decimal (n : Nat) : IsNumeral 10 (Nat.toDigits 10 n) n := by
  have hnumeral : IsNumeral 10 ((Nat.toDigits 10 n).map (cased false)) n :=
    isNumeral_toDigits false (by decide) (by decide) n
  rwa [show cased false = id from rfl, List.map_id] at hnumeral

theorem isHexDigit_of_mem_hexDigits {upper : Bool} {n : Nat} :
    ∀ c ∈ hexDigits upper n, isHexDigit c = true :=
  (isNumeral_hexDigits upper n).isHexDigit

theorem readUnsigned_hexDigits (upper : Bool) {limit n : Nat} (h : n < limit) :
    readUnsigned 16 limit (hexDigits upper n) = .ok n := by
  have hnumeral := isNumeral_hexDigits upper n
  rw [readUnsigned_digits hnumeral.ne_nil hnumeral.isHexDigit, hnumeral.readDigits h]

theorem readHexAddress_hexDigits (upper : Bool) (address : UInt32) :
    readHexAddress (hexDigits upper address.toNat) = .ok address := by
  rw [readHexAddress, afterHexMark?_of_digits isHexDigit_of_mem_hexDigits, Option.getD_none,
    readUnsigned_hexDigits upper address.toNat_lt]
  exact congrArg Except.ok UInt32.ofNat_toNat

/-! ## Addresses -/

/-- `n` in base sixteen, with zeros in front up to eight digits. -/
def paddedHex (upper : Bool) (n : Nat) : List Char :=
  List.replicate (8 - (hexDigits upper n).length) '0' ++ hexDigits upper n

theorem isNumeral_paddedHex (upper : Bool) (n : Nat) : IsNumeral 16 (paddedHex upper n) n :=
  (isNumeral_hexDigits upper n).append_zeros _

/-- The digits of a word never take more than eight. -/
theorem length_paddedHex (upper : Bool) (a : UInt32) : (paddedHex upper a.toNat).length = 8 := by
  have hlength : (hexDigits upper a.toNat).length ≤ 8 := by
    rw [hexDigits, List.length_map]
    exact (Nat.length_toDigits_le_iff (by decide) (by decide)).mpr a.toNat_lt
  rw [paddedHex, List.length_append, List.length_replicate]
  omega

theorem toList_hex (n : Nat) : (hex n).toList = hexDigits false n := by
  rw [hex, String.toList_ofList, hexDigits, show cased false = id from rfl, List.map_id]

theorem toList_hexUpper (n : Nat) : (hexUpper n).toList = hexDigits true n :=
  String.toList_ofList

theorem toList_address (a : UInt32) :
    (address a).toList = '0' :: 'x' :: paddedHex false a.toNat := by
  rw [address, padStart, String.toList_append, String.toList_append, String.toList_ofList,
    String.toList_ofList, ← String.length_toList, toList_hex]
  rfl

theorem toList_addressUpper (a : UInt32) :
    (addressUpper a).toList = '0' :: 'x' :: paddedHex true a.toNat := by
  rw [addressUpper, padStart, String.toList_append, String.toList_append, String.toList_ofList,
    String.toList_ofList, ← String.length_toList, toList_hexUpper]
  rfl

end CodePatch.Text
