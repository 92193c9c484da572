/-
# Listings of bytes

Sixteen bytes to a line, in two groups of eight, behind the address of the
first of them and, if that is asked for, before the characters that they are in
ASCII:

    0x00401000: 48 65 6C 6C 6F 20 57 6F  72 6C 64 00 00 00 00 00  |Hello World.....|

A short last line is filled up with blanks, and no line ends in one.
-/
import CodePatch.Text.Blank
import CodePatch.Text.Hex

namespace CodePatch.Hexdump

/-- The number of bytes to a line. -/
def rowLength : Nat := 16

/-- The bytes line by line. -/
def rows (bytes : List UInt8) : List (List UInt8) :=
  if bytes.isEmpty then [] else bytes.take rowLength :: rows (bytes.drop rowLength)
termination_by bytes.length
decreasing_by
  rename_i h
  have : 0 < bytes.length := List.length_pos_iff.mpr (by simpa using h)
  rw [List.length_drop]
  exact Nat.sub_lt this (by decide)

/-- The column of the byte with the given number in its row. -/
def cell (row : List UInt8) (index : Nat) : String :=
  (if index = rowLength / 2 then " " else "") ++
    (match row[index]? with
      | some byte => Text.byteUpper byte ++ " "
      | none => "   ")

/-- The character that stands for a byte. -/
def shown (byte : UInt8) : Char :=
  if 0x20 ≤ byte ∧ byte < 0x7F then Char.ofNat byte.toNat else '.'

/-- The column of characters. -/
def characters (row : List UInt8) : String :=
  " |" ++ String.ofList (row.map shown ++ List.replicate (rowLength - row.length) ' ') ++ "|"

/-- One line. -/
def line (address : UInt32) (row : List UInt8) (ascii : Bool) : String :=
  let columns := String.join ((List.range rowLength).map (cell row))
  let text := Text.addressUpper address ++ ": " ++ columns ++ (if ascii then characters row else "")
  String.ofList (Text.trimEnd text.toList)

/-- The listing of bytes that start at `address`. -/
def lines (address : UInt32) (bytes : List UInt8) (ascii : Bool) : List String :=
  (rows bytes).zipIdx.map fun (row, i) => line (address + UInt32.ofNat (rowLength * i)) row ascii

/-- The rows hold all of the bytes, in their order. -/
theorem flatten_rows (bytes : List UInt8) : (rows bytes).flatten = bytes := by
  fun_induction rows bytes with
  | case1 bytes h => simp_all
  | case2 bytes h ih => rw [List.flatten_cons, ih, List.take_append_drop]

/-- No row is longer than a line. -/
theorem length_le_of_mem_rows {bytes row : List UInt8} (h : row ∈ rows bytes) :
    row.length ≤ rowLength := by
  fun_induction rows bytes with
  | case1 bytes _ => simp at h
  | case2 bytes _ ih =>
    rcases List.mem_cons.mp h with rfl | h
    · exact List.length_take_le ..
    · exact ih h

end CodePatch.Hexdump
