/-
# Widths, casts and bytes

A word is cut to a type in two places.  A width makes a typed value of it, which is written as
bytes and can be decoded from them; a cast narrows it in the middle of an expression, where a word
is left again.  And what expressions see of a typed value is a word, cut or extended by its sign.

`widths_and_casts_agree` says that all of this is one arithmetic.  A value is had back from its
bytes and bytes from their value, and the word that is seen of a value is the one that the cast
with the name of the width makes.  That holds of integers only: a cast to a float takes the word
for a pattern, while a width that is a float takes it for a number.

Bytes that are decoded need not be as many as the width has.  Those behind do not count, and those
that are missing are zero: a number is the same with zeros behind its highest byte
(`ofLittleEndian_append_zeros`).
-/
import Mathlib
import CodePatch.Expression.Cast
import CodePatch.PatchValue

namespace CodePatch

/-! ## Bytes -/

theorem ofLittleEndian_zeros (count : Nat) : ofLittleEndian (List.replicate count 0) = 0 := by
  induction count with
  | zero => rfl
  | succ count ih =>
      rw [List.replicate_succ, ofLittleEndian, ih]
      rfl

/-- The bytes behind are the high ones, so zeros there make no difference. -/
theorem ofLittleEndian_append_zeros (bytes : List UInt8) (count : Nat) :
    ofLittleEndian (bytes ++ List.replicate count 0) = ofLittleEndian bytes := by
  induction bytes with
  | nil => exact ofLittleEndian_zeros count
  | cons b rest ih => rw [List.cons_append, ofLittleEndian, ofLittleEndian, ih]

theorem ofLittleEndian_lt (bytes : List UInt8) : ofLittleEndian bytes < 2 ^ (8 * bytes.length) := by
  induction bytes with
  | nil => exact Nat.one_pos
  | cons b rest ih =>
      have hb := b.toNat_lt
      rw [ofLittleEndian, List.length_cons, Nat.mul_succ, Nat.pow_add, Nat.mul_comm]
      omega

theorem ofNat_littleEndian {bits count : Nat} (hbits : bits = 8 * count) (pattern : BitVec bits) :
    BitVec.ofNat bits (ofLittleEndian (littleEndian count pattern.toNat)) = pattern := by
  subst hbits
  rw [ofLittleEndian_littleEndian, Nat.one_shiftLeft, Nat.mod_eq_of_lt pattern.isLt,
    BitVec.ofNat_toNat, BitVec.setWidth_eq]

theorem littleEndian_ofNat {bits count : Nat} (hbits : bits = 8 * count) {bytes : List UInt8}
    (hlength : bytes.length = count) :
    littleEndian count (BitVec.ofNat bits (ofLittleEndian bytes)).toNat = bytes := by
  subst hbits hlength
  rw [BitVec.toNat_ofNat, Nat.mod_eq_of_lt (ofLittleEndian_lt bytes), littleEndian_ofLittleEndian]

namespace ValueWidth
variable {w : ValueWidth} {t : IntegerType}

/-! ## Widths that are integers -/

theorem decode_of_integerType (h : w.integerType? = some t) (bytes : List UInt8) :
    w.decode bytes = .integer t (BitVec.ofNat t.bits (ofLittleEndian (bytes.take w.size))) := by
  cases w <;> cases h <;> rfl

theorem ofWord_of_integerType (h : w.integerType? = some t) (v : UInt32) :
    w.ofWord v = .integer t (v.toBitVec.setWidth t.bits) := by
  cases w <;> cases h <;> rfl

/-- The word that expressions see of a value is the one that a cast makes. -/
theorem exists_cast (h : w.integerType? = some t) (v : UInt32) (rest : List Char) :
    ∃ cast, Cast.atStart? ('(' :: (w.name.toList ++ ')' :: rest)) =
        some (cast, w.name.length + 2) ∧
      cast.name = w.name ∧ (w.ofWord v).word = cast.convert v := by
  cases w with
  | i8 => exact ⟨.i8, rfl, rfl, rfl⟩
  | u8 => exact ⟨.u8, rfl, rfl, rfl⟩
  | i16 => exact ⟨.i16, rfl, rfl, rfl⟩
  | u16 => exact ⟨.u16, rfl, rfl, rfl⟩
  | i32 => exact ⟨.i32, rfl, rfl, congrArg UInt32.ofBitVec (BitVec.signExtend_eq v.toBitVec)⟩
  | u32 => exact ⟨.u32, rfl, rfl, congrArg UInt32.ofBitVec (BitVec.setWidth_eq v.toBitVec)⟩
  | f32 | f64 => cases h

/-! ## Values and their bytes -/

theorem decode_toBytes_ofWord (w : ValueWidth) (v : UInt32) :
    w.decode (w.ofWord v).toBytes = w.ofWord v := by
  have hbytes : (w.ofWord v).toBytes.take w.size = (w.ofWord v).toBytes :=
    List.take_of_length_le (by rw [PatchValue.length_toBytes, size_ofWord])
  cases htype : w.integerType? with
  | some t =>
      rw [decode_of_integerType htype, hbytes, ofWord_of_integerType htype, PatchValue.toBytes,
        ofNat_littleEndian rfl]
  | none =>
      cases w with
      | f32 =>
          refine congrArg PatchValue.single (congrArg UInt32.ofBitVec ?_)
          exact (congrArg _ (congrArg _ hbytes)).trans (ofNat_littleEndian rfl _)
      | f64 =>
          refine congrArg PatchValue.double (congrArg UInt64.ofBitVec ?_)
          exact (congrArg _ (congrArg _ hbytes)).trans (ofNat_littleEndian rfl _)
      | i8 | u8 | i16 | u16 | i32 | u32 => cases htype

theorem toBytes_decode_eq (w : ValueWidth) (bytes : List UInt8) :
    (w.decode bytes).toBytes =
      littleEndian w.size
        (BitVec.ofNat (8 * w.size) (ofLittleEndian (bytes.take w.size))).toNat := by
  cases w <;> rfl

theorem toBytes_decode (w : ValueWidth) {bytes : List UInt8} (h : bytes.length = w.size) :
    (w.decode bytes).toBytes = bytes := by
  rw [toBytes_decode_eq, List.take_of_length_le (Nat.le_of_eq h), littleEndian_ofNat rfl h]

theorem decode_congr (w : ValueWidth) {bytes more : List UInt8}
    (h : ofLittleEndian (bytes.take w.size) = ofLittleEndian (more.take w.size)) :
    w.decode bytes = w.decode more := by
  simp only [decode, h]

/-- Bytes behind those of the width do not count, nor do zeros that stand for missing ones. -/
theorem decode_filled (w : ValueWidth) (bytes : List UInt8) {n : Nat} (h : w.size ≤ n)
    (count : Nat) : w.decode (bytes.take n ++ List.replicate count 0) = w.decode bytes := by
  have hfront : (bytes.take n).take w.size = bytes.take w.size := by
    rw [List.take_take, Nat.min_eq_left h]
  refine w.decode_congr ?_
  rw [List.take_append, List.take_replicate, ofLittleEndian_append_zeros, hfront]

/-- A value of a width is had back from its bytes, and bytes from the value; the word that
expressions see of it is what the cast with the name of the width makes.  Of the bytes, the first
ones are decoded, as many as the width has, with zeros for those that are missing; it is the same
if more of them are taken, as many as a buffer of eight bytes holds, say. -/
theorem widths_and_casts_agree (w : ValueWidth) :
    (∀ v, w.decode (w.ofWord v).toBytes = w.ofWord v) ∧
    (∀ t, w.integerType? = some t → ∀ v rest, ∃ cast,
      Cast.atStart? ('(' :: (w.name.toList ++ ')' :: rest)) = some (cast, w.name.length + 2) ∧
      cast.name = w.name ∧ (w.ofWord v).word = cast.convert v) ∧
    (∀ bytes, bytes.length = w.size → (w.decode bytes).toBytes = bytes) ∧
    ∀ bytes n count, w.size ≤ n →
      w.decode (bytes.take n ++ List.replicate count 0) = w.decode bytes := by
  refine ⟨w.decode_toBytes_ofWord, ?_, ?_, ?_⟩
  · intro t htype v rest
    exact exists_cast htype v rest
  · intro bytes hlength
    exact w.toBytes_decode hlength
  · intro bytes n count hsize
    exact w.decode_filled bytes hsize count

/-- A negative number in two bytes, from a word with more, from one byte, and from three. -/
theorem sample_widths :
    let w : ValueWidth := .i16
    w.decode (w.ofWord 0x1FFFE).toBytes = .integer .i16 0xFFFE ∧
      (w.ofWord 0x1FFFE).word = 0xFFFFFFFE ∧
      (w.decode [0xFE, 0xFF]).toBytes = [0xFE, 0xFF] ∧
      w.decode [0xFE] = w.decode [0xFE, 0x00] ∧
      w.decode [0xFE, 0xFF, 0x01] = w.decode [0xFE, 0xFF] := by
  obtain ⟨hvalue, hcast, hbytes, hfilled⟩ := widths_and_casts_agree .i16
  obtain ⟨cast, htoken, -, hword⟩ := hcast .i16 rfl 0x1FFFE []
  have hfound : cast = .i16 := congrArg Prod.fst (Option.some.inj htoken).symm
  refine ⟨hvalue 0x1FFFE, hword.trans (by rw [hfound]; rfl), hbytes _ rfl, ?_, ?_⟩
  · exact (hfilled [0xFE] 2 1 (Nat.le_refl 2)).symm
  · exact (hfilled [0xFE, 0xFF, 0x01] 2 0 (Nat.le_refl 2)).symm

end ValueWidth
end CodePatch
