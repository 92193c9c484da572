/-
# Casts

A cast such as `(i16)`, or a size such as `word ptr`, in front of an operand.
In front of a dereference it says how many bytes are read; the value, read or
not, is then narrowed to the type, extended by its sign if it has one.
`(f32)` takes the word for the pattern of a float and yields its integer part.
-/
import CodePatch.BinaryFloat.Basic
import CodePatch.Text.Ascii

namespace CodePatch

/-- What an operand is read as and narrowed to. -/
inductive Cast where
  | i8
  | u8
  | i16
  | u16
  | i32
  | u32
  | f32
deriving DecidableEq, Repr

namespace Cast

def all : List Cast :=
  [.i8, .u8, .i16, .u16, .i32, .u32, .f32]

def name : Cast → String
  | .i8 => "i8"
  | .u8 => "u8"
  | .i16 => "i16"
  | .u16 => "u16"
  | .i32 => "i32"
  | .u32 => "u32"
  | .f32 => "f32"

/-- The number of bytes that a dereference reads. -/
def readSize : Cast → Nat
  | .i8 | .u8 => 1
  | .i16 | .u16 => 2
  | .i32 | .u32 | .f32 => 4

/-- The value narrowed to the type. -/
def convert (cast : Cast) (raw : UInt32) : UInt32 :=
  match cast with
  | .i8 => ⟨(raw.toBitVec.setWidth 8).signExtend 32⟩
  | .u8 => ⟨(raw.toBitVec.setWidth 8).setWidth 32⟩
  | .i16 => ⟨(raw.toBitVec.setWidth 16).signExtend 32⟩
  | .u16 => ⟨(raw.toBitVec.setWidth 16).setWidth 32⟩
  | .i32 | .u32 => raw
  | .f32 => ⟨BitVec.ofInt 32 (BinaryFloat.truncate32 32 raw)⟩

/-- The spellings, in the order they are tried. -/
def tokens : List (List Char × Cast) :=
  [(['(', 'i', '8', ')'], .i8), (['(', 'u', '8', ')'], .u8),
   (['(', 'i', '1', '6', ')'], .i16), (['(', 'u', '1', '6', ')'], .u16),
   (['(', 'i', '3', '2', ')'], .i32), (['(', 'u', '3', '2', ')'], .u32),
   (['(', 'f', '3', '2', ')'], .f32),
   (['b', 'y', 't', 'e', ' ', 'p', 't', 'r'], .u8),
   (['w', 'o', 'r', 'd', ' ', 'p', 't', 'r'], .u16),
   (['d', 'w', 'o', 'r', 'd', ' ', 'p', 't', 'r'], .u32),
   (['f', 'l', 'o', 'a', 't', ' ', 'p', 't', 'r'], .f32)]

/-- The cast that `text` starts with, in any case, and its length. -/
def atStart? (text : List Char) : Option (Cast × Nat) :=
  (tokens.find? fun (token, _) => Text.startsLike token text).map
    fun (token, cast) => (cast, token.length)

end Cast
end CodePatch
