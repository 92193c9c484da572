/-
# Reading listings back

A listing shows every byte, and where it lies.  Each line starts with the address of its first
byte, which can be read; the digits of the bytes stand in columns of their own (`column`), so a
reader that knows the columns gets the bytes back (`listing_is_read_back`).

The reader stops at a blank column or at the end of the line.  Which of the two it meets depends
on the column of characters, and it makes no difference: trimming takes off blanks only, so
where a byte is shown its digits are left (`byteAt?_line`), and where none is shown there is a
blank or nothing (`blank_line`).  What the characters are, digits and blanks included, does not
matter: they stand behind all the columns of bytes.

The offset of a line is put together in a word; it fits for as many bytes as there are addresses.
-/
import Mathlib
import CodePatch.CommandLine.Command
import CodePatch.CommandLine.Hexdump
import CodePatch.Proofs.Text.HexDigits

namespace CodePatch.Hexdump

/-! ## The reader -/

/-- Where the digits of a byte start: behind the address, three columns for each byte before it,
and the gap in the middle. -/
def column (index : Nat) : Nat :=
  12 + 3 * index + if index < rowLength / 2 then 0 else 1

/-- The byte whose two digits start at a place of a line. -/
def byteAt? (text : List Char) (place : Nat) : Option UInt8 := do
  let high ← (text[place]?).bind Text.hexDigit?
  let low ← (text[place + 1]?).bind Text.hexDigit?
  return UInt8.ofNat (16 * high + low)

/-- The bytes that a line shows in columns with the given numbers, up to the first that is blank
or behind the end of the line; `none` if there is something else than digits. -/
def readColumns? (text : List Char) : List Nat → Option (List UInt8)
  | [] => some []
  | index :: rest =>
    if (text[column index]?).all (· = ' ') then some []
    else do
      let byte ← byteAt? text (column index)
      let bytes ← readColumns? text rest
      return byte :: bytes

/-- The bytes that a line shows. -/
def readLine? (text : String) : Option (List UInt8) :=
  readColumns? text.toList (List.range rowLength)

/-- The bytes that a listing shows. -/
def read? (listing : List String) : Option (List UInt8) :=
  (listing.mapM readLine?).map List.flatten

/-! ## Columns -/

/-- The three characters of a byte, or of a place without one. -/
def shownIn (row : List UInt8) (index : Nat) : List Char :=
  match row[index]? with
  | some byte => Text.byteInHex true byte ++ [' ']
  | none => [' ', ' ', ' ']

/-- The gap in front of the second half of a row. -/
def gap (index : Nat) : List Char :=
  if index = rowLength / 2 then [' '] else []

theorem length_shownIn (row : List UInt8) (index : Nat) : (shownIn row index).length = 3 := by
  unfold shownIn
  split <;> rfl

theorem toList_cell (row : List UInt8) (index : Nat) :
    (cell row index).toList = gap index ++ shownIn row index := by
  have hgap : (if index = rowLength / 2 then " " else "").toList = gap index := by
    unfold gap
    split <;> rfl
  rw [cell, String.toList_append, hgap, shownIn]
  cases row[index]? with
  | none => rfl
  | some byte =>
      simp only [String.toList_append, Text.byteUpper, String.toList_ofList]
      rfl

/-- The columns of the bytes before the one with the given number. -/
def before (row : List UInt8) (index : Nat) : List Char :=
  (List.range index).flatMap fun i => gap i ++ shownIn row i

theorem length_gap (index : Nat) :
    (gap index).length = if index = rowLength / 2 then 1 else 0 := by
  unfold gap
  split <;> rfl

theorem length_before (row : List UInt8) (index : Nat) :
    (before row index).length = 3 * index + if index ≤ rowLength / 2 then 0 else 1 := by
  induction index with
  | zero => rfl
  | succ index ih =>
      have hsplit :
          before row (index + 1) = before row index ++ (gap index ++ shownIn row index) := by
        rw [before, List.range_succ, List.flatMap_append, List.flatMap_singleton, ← before]
      rw [hsplit, List.length_append, List.length_append, length_shownIn, length_gap, ih]
      split <;> split <;> split <;> omega

/-- A line before its end is trimmed. -/
def untrimmed (address : UInt32) (row : List UInt8) (ascii : Bool) : List Char :=
  (Text.addressUpper address).toList ++ ([':', ' '] ++ (before row rowLength ++
    if ascii then (characters row).toList else []))

theorem toList_line (address : UInt32) (row : List UInt8) (ascii : Bool) :
    (line address row ascii).toList = Text.trimEnd (untrimmed address row ascii) := by
  have hcolumns : (String.join ((List.range rowLength).map (cell row))).toList =
      before row rowLength := by
    rw [String.toList_join, List.flatMap_map, before]
    simp only [toList_cell]
  have hcharacters : (if ascii then characters row else "").toList =
      if ascii then (characters row).toList else [] := by
    cases ascii <;> rfl
  simp only [line, String.toList_ofList, String.toList_append, hcolumns, hcharacters,
    List.append_assoc, untrimmed]
  rfl

theorem length_addressUpper (address : UInt32) :
    (Text.addressUpper address).toList.length = 10 := by
  rw [Text.toList_addressUpper, List.length_cons, List.length_cons, Text.length_paddedHex]

theorem getElem?_untrimmed (address : UInt32) (row : List UInt8) (ascii : Bool)
    {index offset : Nat} (hindex : index < rowLength) (hoffset : offset < 3) :
    (untrimmed address row ascii)[column index + offset]? = (shownIn row index)[offset]? := by
  have hrange : List.range rowLength = List.range index ++ [index] ++
      (List.range (rowLength - (index + 1))).map (index + 1 + ·) := by
    rw [← List.range_succ, ← List.range_add, Nat.add_sub_cancel' hindex]
  obtain ⟨more, hbefore⟩ : ∃ more, before row rowLength =
      before row index ++ (gap index ++ (shownIn row index ++ more)) := by
    rw [before, hrange, List.flatMap_append, List.flatMap_append, List.flatMap_singleton, ← before]
    refine ⟨((List.range (rowLength - (index + 1))).map (index + 1 + ·)).flatMap
      fun i => gap i ++ shownIn row i, ?_⟩
    simp only [List.append_assoc]
  generalize hfront : (Text.addressUpper address).toList ++ ([':', ' '] ++
    (before row index ++ gap index)) = front
  have hlength : front.length = column index := by
    rw [← hfront]
    simp only [List.length_append, length_addressUpper, length_before, length_gap, column]
    split <;> split <;> split <;> simp <;> omega
  obtain ⟨rest, hsplit⟩ : ∃ rest,
      untrimmed address row ascii = front ++ (shownIn row index ++ rest) := by
    refine ⟨more ++ if ascii then (characters row).toList else [], ?_⟩
    simp only [untrimmed, hbefore, ← hfront, List.append_assoc]
  rw [hsplit, ← hlength, List.getElem?_append_right (Nat.le_add_right _ _), Nat.add_sub_cancel_left,
    List.getElem?_append_left (by rwa [length_shownIn])]

/-! ## Lines -/

section Line
variable (address : UInt32) {row : List UInt8} (ascii : Bool) {index : Nat}

/-- The digits of a byte are left when the line is trimmed. -/
theorem byteAt?_line (hindex : index < rowLength) {byte : UInt8} (hbyte : row[index]? = some byte) :
    (∃ high, (line address row ascii).toList[column index]? = some high ∧ high ≠ ' ') ∧
      byteAt? (line address row ascii).toList (column index) = some byte := by
  have hhigh : byte.toNat / 16 < 16 := Nat.div_lt_of_lt_mul byte.toNat_lt
  have hlow : byte.toNat % 16 < 16 := Nat.mod_lt _ (by decide)
  have hdigit : ∀ offset < 3, ∀ d < 16,
      (Text.byteInHex true byte ++ [' '])[offset]? = some (Text.cased true (Nat.digitChar d)) →
      (line address row ascii).toList[column index + offset]? =
        some (Text.cased true (Nat.digitChar d)) := by
    intro offset hoffset d hd h
    have hshown : (shownIn row index)[offset]? = some (Text.cased true (Nat.digitChar d)) := by
      rwa [shownIn, hbyte]
    rw [← getElem?_untrimmed address row ascii hindex hoffset] at hshown
    rw [toList_line]
    exact Text.getElem?_trimEnd_of_not_blank hshown
      (Text.isBlank_of_isHexDigit (Option.isSome_of_eq_some (Text.hexDigit?_cased true hd)))
  have hfirst := hdigit 0 (by decide) _ hhigh rfl
  have hsecond := hdigit 1 (by decide) _ hlow rfl
  refine ⟨⟨_, hfirst, fun h => ?_⟩, ?_⟩
  · have hread := Text.hexDigit?_cased true hhigh
    rw [h] at hread
    cases hread
  · rw [byteAt?, hsecond, ← Nat.add_zero (column index), hfirst]
    simp only [Option.bind_eq_bind, Option.bind_some, Option.pure_def,
      Text.hexDigit?_cased true hhigh, Text.hexDigit?_cased true hlow, Nat.div_add_mod,
      UInt8.ofNat_toNat]

/-- Without a byte the column is blank, or the line has ended. -/
theorem blank_line (hindex : index < rowLength) (hbyte : row[index]? = none) :
    ((line address row ascii).toList[column index]?).all (· = ' ') = true := by
  have hblank : (untrimmed address row ascii)[column index]? = some ' ' := by
    rw [← Nat.add_zero (column index), getElem?_untrimmed address row ascii hindex (by decide),
      shownIn, hbyte]
    rfl
  rw [toList_line]
  rcases Text.getElem?_trimEnd (untrimmed address row ascii) (column index) with h | h
  · rw [h]
    rfl
  · rw [h, hblank]
    rfl

theorem readColumns?_line (hrow : row.length ≤ rowLength) {count : Nat}
    (h : index + count = rowLength) :
    readColumns? (line address row ascii).toList (List.range' index count) =
      some (row.drop index) := by
  induction count generalizing index with
  | zero =>
      have hend : row.drop index = [] := List.drop_eq_nil_of_le (by omega)
      rw [hend]
      rfl
  | succ count ih =>
      have hindex : index < rowLength := by omega
      rw [List.range'_succ, readColumns?]
      cases hbyte : row[index]? with
      | none =>
          rw [if_pos (blank_line address ascii hindex hbyte),
            List.drop_eq_nil_of_le (List.getElem?_eq_none_iff.mp hbyte)]
      | some byte =>
          obtain ⟨⟨high, hhigh, hne⟩, hread⟩ := byteAt?_line address ascii hindex hbyte
          obtain ⟨hlt, hget⟩ := List.getElem?_eq_some_iff.mp hbyte
          rw [if_neg (by simpa [hhigh] using hne), hread, ih (by omega),
            List.drop_eq_getElem_cons hlt, hget]
          rfl

theorem readLine?_line (hrow : row.length ≤ rowLength) :
    readLine? (line address row ascii) = some row := by
  rw [readLine?, List.range_eq_range', readColumns?_line address ascii hrow (Nat.zero_add _),
    List.drop_zero]

example : line 0x401000 [0x48, 0x65, 0x6C, 0x6C, 0x6F, 0x20, 0x57, 0x6F, 0x72, 0x6C, 0x64] true =
    "0x00401000: 48 65 6C 6C 6F 20 57 6F  72 6C 64                 |Hello World     |" := by rfl

/-- A line starts with its address: the colon behind it is left when the line is trimmed. -/
theorem isPrefix_line : (Text.addressUpper address).toList <+: (line address row ascii).toList := by
  have hcolon : (untrimmed address row ascii)[(Text.addressUpper address).toList.length]? =
      some ':' := by
    rw [untrimmed, List.getElem?_append_right (Nat.le_refl _), Nat.sub_self]
    rfl
  have hleft := Text.getElem?_trimEnd_of_not_blank hcolon rfl
  rw [toList_line]
  exact List.prefix_of_prefix_length_le (List.prefix_append _ _) (Text.isPrefix_trimEnd _)
    (List.getElem?_eq_some_iff.mp hleft).1.le

end Line

/-! ## Addresses -/

theorem readAddress_addressUpper (address : UInt32) :
    Command.readAddress (Text.addressUpper address) = .ok address := by
  have hnumeral := Text.isNumeral_paddedHex true address.toNat
  have htrim :
      Text.trim (Text.addressUpper address).toList = (Text.addressUpper address).toList := by
    rw [Text.toList_addressUpper]
    exact (Text.Spells.hex (Or.inl rfl) hnumeral).trimmed.trim_eq
  have hread : Text.readHexAddress (Text.addressUpper address).toList = .ok address := by
    rw [Text.toList_addressUpper, Text.readHexAddress, Text.afterHexMark?, Option.getD_some,
      Text.readUnsigned_digits hnumeral.ne_nil hnumeral.isHexDigit,
      hnumeral.readDigits address.toNat_lt]
    exact congrArg Except.ok UInt32.ofNat_toNat
  rw [Command.readAddress, htrim, hread]
  rfl

/-! ## Listings -/

theorem length_rows (bytes : List UInt8) :
    (rows bytes).length = (bytes.length + (rowLength - 1)) / rowLength := by
  fun_induction rows bytes with
  | case1 bytes h =>
      rw [List.isEmpty_iff.mp h]
      rfl
  | case2 bytes h ih =>
      have hpos : 0 < bytes.length := List.length_pos_iff.mpr (by simpa using h)
      rw [List.length_cons, ih, List.length_drop]
      simp only [rowLength]
      omega

theorem mapM_readLine? (address : Nat → UInt32) (ascii : Bool) {group : List (List UInt8)}
    (h : ∀ row ∈ group, row.length ≤ rowLength) (first : Nat) :
    ((group.zipIdx first).map fun (row, i) => line (address i) row ascii).mapM readLine? =
      some group := by
  induction group generalizing first with
  | nil => rfl
  | cons row group ih =>
      rw [List.zipIdx_cons, List.map_cons, List.mapM_cons,
        readLine?_line _ ascii (h row List.mem_cons_self),
        ih fun other hother => h other (List.mem_cons_of_mem _ hother)]
      rfl

/-- Sixteen bytes are listed to a line, and each line starts with the address of its first byte,
which can be read; its offset does not leave the word that it is put together in.  Read in the
columns of the lines, the listing is the bytes. -/
theorem listing_is_read_back (address : UInt32) {bytes : List UInt8}
    (h : bytes.length ≤ UInt32.size) (ascii : Bool) :
    (lines address bytes ascii).length = (bytes.length + (rowLength - 1)) / rowLength ∧
      (∀ i text, (lines address bytes ascii)[i]? = some text →
        rowLength * i < UInt32.size ∧
          ∃ start : UInt32, start.toNat = (address.toNat + rowLength * i) % UInt32.size ∧
            (Text.addressUpper start).toList <+: text.toList ∧
            Command.readAddress (Text.addressUpper start) = .ok start) ∧
      read? (lines address bytes ascii) = some bytes := by
  have hlength :
      (lines address bytes ascii).length = (bytes.length + (rowLength - 1)) / rowLength := by
    rw [lines, List.length_map, List.length_zipIdx, length_rows]
  refine ⟨hlength, fun i text htext => ?_, ?_⟩
  · have hi : i < (bytes.length + (rowLength - 1)) / rowLength :=
      hlength ▸ (List.getElem?_eq_some_iff.mp htext).1
    have hoffset : rowLength * i < UInt32.size := by
      simp only [rowLength] at hi ⊢
      omega
    obtain ⟨row, -, rfl⟩ : ∃ row, (rows bytes)[i]? = some row ∧
        line (address + UInt32.ofNat (rowLength * i)) row ascii = text := by
      rw [lines, List.getElem?_map, List.getElem?_zipIdx, Nat.zero_add] at htext
      simpa using htext
    refine ⟨hoffset, address + UInt32.ofNat (rowLength * i), ?_, isPrefix_line _ ascii,
      readAddress_addressUpper _⟩
    rw [UInt32.toNat_add, UInt32.toNat_ofNat_of_lt' hoffset]
  · rw [read?, lines, mapM_readLine? (fun i => address + UInt32.ofNat (rowLength * i)) ascii
      fun row hrow => length_le_of_mem_rows hrow]
    exact congrArg some (flatten_rows bytes)

/-- Eighteen bytes across the end of the address space, with blanks, bars and digits for
characters. -/
theorem sample_listing :
    let bytes : List UInt8 :=
      [0x20, 0x7C, 0x34, 0x31, 0, 0xFF, 0x20, 0x20, 1, 2, 3, 4, 5, 6, 7, 8, 0x41, 0x20]
    bytes.length ≤ UInt32.size ∧ (lines 0xFFFFFFF8 bytes true).length = 2 ∧
      (∀ text, (lines 0xFFFFFFF8 bytes true)[1]? = some text →
        (Text.addressUpper 8).toList <+: text.toList) ∧
      read? (lines 0xFFFFFFF8 bytes true) = some bytes := by
  intro bytes
  have hfits : bytes.length ≤ UInt32.size := by decide
  obtain ⟨hlength, hlines, hread⟩ := listing_is_read_back 0xFFFFFFF8 hfits true
  refine ⟨hfits, hlength.trans (by simp [bytes, rowLength]), fun text htext => ?_, hread⟩
  obtain ⟨-, start, hstart, hprefix, -⟩ := hlines 1 text htext
  have height : start = 8 := UInt32.toNat_inj.mp hstart
  rwa [height] at hprefix

end CodePatch.Hexdump
