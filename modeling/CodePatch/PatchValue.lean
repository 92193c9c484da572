/-
# Values written into memory

A `PatchValue` is a typed value together with its representation in memory:
an integer of one, two, four or eight bytes, the pattern of a float, or the
bytes of a text.  A `ValueWidth` is a type that code strings and handlers can
name; it makes a value out of the result of an expression, or out of bytes
that were read.
-/
import CodePatch.BinaryFloat.Basic
import CodePatch.LittleEndian

namespace CodePatch

/-- The types of integers. -/
inductive IntegerType where
  | i8
  | u8
  | i16
  | u16
  | i32
  | u32
  | i64
  | u64
deriving DecidableEq, Repr

namespace IntegerType

def size : IntegerType → Nat
  | .i8 | .u8 => 1
  | .i16 | .u16 => 2
  | .i32 | .u32 => 4
  | .i64 | .u64 => 8

/-- The number of bits. -/
abbrev bits (t : IntegerType) : Nat := 8 * t.size

def isSigned : IntegerType → Bool
  | .i8 | .i16 | .i32 | .i64 => true
  | .u8 | .u16 | .u32 | .u64 => false

def name : IntegerType → String
  | .i8 => "i8"
  | .u8 => "u8"
  | .i16 => "i16"
  | .u16 => "u16"
  | .i32 => "i32"
  | .u32 => "u32"
  | .i64 => "i64"
  | .u64 => "u64"

/-- A pattern of the type made a word: cut, or extended by the sign if the type
has one. -/
def word (t : IntegerType) (pattern : BitVec t.bits) : UInt32 :=
  ⟨if t.isSigned then pattern.signExtend 32 else pattern.setWidth 32⟩

end IntegerType

/-- A typed value to be written into memory. -/
inductive PatchValue where
  | integer (type : IntegerType) (pattern : BitVec type.bits)
  | single (bits : UInt32)
  | double (bits : UInt64)
  /-- The bytes of a text, with its terminator. -/
  | text (bytes : List UInt8)
deriving DecidableEq, Repr

namespace PatchValue

/-- The integer `value` cut to the type. -/
def ofInt (type : IntegerType) (value : Int) : PatchValue :=
  .integer type (BitVec.ofInt _ value)

def size : PatchValue → Nat
  | .integer type _ => type.size
  | .single _ => 4
  | .double _ => 8
  | .text bytes => bytes.length

/-- The representation in memory. -/
def toBytes : PatchValue → List UInt8
  | .integer type pattern => littleEndian type.size pattern.toNat
  | .single bits => littleEndian 4 bits.toNat
  | .double bits => littleEndian 8 bits.toNat
  | .text bytes => bytes

/-- The value as expressions see it: integers are cut or sign-extended to a
word, floats lose their fraction, and a text is worth nothing. -/
def word : PatchValue → UInt32
  | .integer type pattern => type.word pattern
  | .single bits => UInt32.ofBitVec (BitVec.ofInt 32 (BinaryFloat.truncate32 64 bits))
  | .double bits => UInt32.ofBitVec (BitVec.ofInt 32 (BinaryFloat.truncate64 64 bits))
  | .text _ => 0

/-- A value takes as many bytes as its size says. -/
@[simp] theorem length_toBytes (v : PatchValue) : v.toBytes.length = v.size := by
  cases v <;> simp [toBytes, size]

end PatchValue

/-- The types that code strings and handlers can name. -/
inductive ValueWidth where
  | i8
  | u8
  | i16
  | u16
  | i32
  | u32
  | f32
  | f64
deriving DecidableEq, Repr

namespace ValueWidth

def all : List ValueWidth :=
  [.i8, .u8, .i16, .u16, .i32, .u32, .f32, .f64]

def name : ValueWidth → String
  | .i8 => "i8"
  | .u8 => "u8"
  | .i16 => "i16"
  | .u16 => "u16"
  | .i32 => "i32"
  | .u32 => "u32"
  | .f32 => "f32"
  | .f64 => "f64"

/-- The width with exactly this name. -/
def ofName? (text : List Char) : Option ValueWidth :=
  all.find? fun w => w.name.toList == text

/-- The integer type of this name, if it is one. -/
def integerType? : ValueWidth → Option IntegerType
  | .i8 => some .i8
  | .u8 => some .u8
  | .i16 => some .i16
  | .u16 => some .u16
  | .i32 => some .i32
  | .u32 => some .u32
  | .f32 | .f64 => none

def size : ValueWidth → Nat
  | .i8 | .u8 => 1
  | .i16 | .u16 => 2
  | .i32 | .u32 | .f32 => 4
  | .f64 => 8

def isSigned : ValueWidth → Bool
  | .i8 | .i16 | .i32 => true
  | .u8 | .u16 | .u32 | .f32 | .f64 => false

/-- The result of an expression as a value of this width: an integer is cut, a
float gets the number that the word is as a signed integer. -/
def ofWord (w : ValueWidth) (value : UInt32) : PatchValue :=
  match w with
  | .i8 => .integer .i8 (value.toBitVec.setWidth 8)
  | .u8 => .integer .u8 (value.toBitVec.setWidth 8)
  | .i16 => .integer .i16 (value.toBitVec.setWidth 16)
  | .u16 => .integer .u16 (value.toBitVec.setWidth 16)
  | .i32 => .integer .i32 value.toBitVec
  | .u32 => .integer .u32 value.toBitVec
  | .f32 => .single (UInt32.ofNat (BinaryFloat.binary32.ofInt value.toBitVec.toInt))
  | .f64 => .double (UInt64.ofNat (BinaryFloat.binary64.ofInt value.toBitVec.toInt))

/-- The value whose representation the first bytes are; missing high bytes are
zero. -/
def decode (w : ValueWidth) (bytes : List UInt8) : PatchValue :=
  let pattern := ofLittleEndian (bytes.take w.size)
  match w with
  | .i8 => .integer .i8 (BitVec.ofNat 8 pattern)
  | .u8 => .integer .u8 (BitVec.ofNat 8 pattern)
  | .i16 => .integer .i16 (BitVec.ofNat 16 pattern)
  | .u16 => .integer .u16 (BitVec.ofNat 16 pattern)
  | .i32 => .integer .i32 (BitVec.ofNat 32 pattern)
  | .u32 => .integer .u32 (BitVec.ofNat 32 pattern)
  | .f32 => .single (UInt32.ofNat pattern)
  | .f64 => .double (UInt64.ofNat pattern)

@[simp] theorem size_ofWord (w : ValueWidth) (value : UInt32) : (w.ofWord value).size = w.size := by
  cases w <;> rfl

end ValueWidth
end CodePatch
