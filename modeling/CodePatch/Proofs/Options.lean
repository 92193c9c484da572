/-
# Integer options

An integer option is given as a number of the document, or as text in one of two bases, with or
without a minus sign and with blanks around it.  All of these describe the same integer
(`Describes`, `integerOf_describes`), and which one it was given in is not to be seen from the
value that it becomes (`integer_option_as_described`).

Text is read into 128 bits before it is cut to its type, and its minus sign is taken off before
that; so an integer can be spelled if it is closer to zero than `2 ^ 127`, on either side.  In the
value, the integer is a residue modulo a power of two: the bytes are those of the least one that is
not negative, and expressions see the one that the type stands for (`IntegerType.residue`), modulo
`2 ^ 32`.
-/
import CodePatch.Proofs.Text.HexDigits
import CodePatch.Options

namespace CodePatch

/-! ## Spelled integers -/

namespace Text

/-- An integer in base sixteen, with the mark behind the sign. -/
def signedHex (upper : Bool) (n : Int) : List Char :=
  if n < 0 then '-' :: '0' :: 'x' :: hexDigits upper n.natAbs
  else '0' :: 'x' :: hexDigits upper n.natAbs

theorem spellsInt_toString (n : Int) : SpellsInt n (toString n).toList := by
  cases n with
  | ofNat m =>
      have hdigits : (toString (Int.ofNat m)).toList = Nat.toDigits 10 m := Nat.toList_repr
      rw [hdigits]
      exact .plain (.decimal (isNumeral_decimal m))
  | negSucc m =>
      have hdigits : (toString (Int.negSucc m)).toList = '-' :: Nat.toDigits 10 (m + 1) := by
        have hsplit : toString (Int.negSucc m) = "-" ++ (m + 1).repr := rfl
        rw [hsplit, String.toList_append, Nat.toList_repr]
        rfl
      rw [hdigits]
      exact .minus (.decimal (isNumeral_decimal (m + 1)))

theorem spellsInt_signedHex (upper : Bool) (n : Int) : SpellsInt n (signedHex upper n) := by
  have hspells : Spells n.natAbs ('0' :: 'x' :: hexDigits upper n.natAbs) :=
    .hex (Or.inl rfl) (isNumeral_hexDigits upper n.natAbs)
  unfold signedHex
  split
  · rename_i hnegative
    have hminus := SpellsInt.minus hspells
    rwa [Int.ofNat_natAbs_of_nonpos (Int.le_of_lt hnegative), Int.neg_neg] at hminus
  · rename_i hpositive
    have hplain := SpellsInt.plain hspells
    rwa [Int.natAbs_of_nonneg (Int.not_lt.mp hpositive)] at hplain

end Text

/-! ## Reading them -/

/-- The range of described integers, in figures. -/
theorem fits_describedBits_iff {n : Int} :
    Text.Fits describedBits n ↔ -2 ^ 127 ≤ n ∧ n < 2 ^ 127 :=
  Iff.rfl

theorem readInteger?_eq_some_iff {text : List Char} {n : Int} :
    readInteger? text = some n ↔ Text.MarkedNumeral text n ∧ Text.Fits describedBits n := by
  have hoption (value : Except Text.NumeralError Int) :
      value.toOption = some n ↔ value = .ok n := by
    cases value <;> simp [Except.toOption]
  rw [readInteger?, hoption]
  rcases hmark : Text.afterHexMark? text with _ | digits
  · rw [Text.readSigned_eq_ok_iff, Text.markedNumeral_of_no_mark hmark]
  · rw [Text.readSigned_eq_ok_iff, Text.markedNumeral_of_mark hmark]

theorem negated_of_fits {n : Int} (h : Text.Fits describedBits (-n)) : negated n = .ok (-n) :=
  if_pos (fits_describedBits_iff.mp h).2

theorem integerOfText_spelled {n : Int} {body text : List Char} (h : Text.SpellsInt n body)
    (hn : n.natAbs < 2 ^ 127) (hpadded : Text.Padded body text) :
    integerOfText text = .ok n := by
  rw [integerOfText, h.trimmed.trim_of_padded hpadded]
  cases h with
  | @plain m body h =>
      have hread : readInteger? body = some (m : Int) :=
        readInteger?_eq_some_iff.mpr ⟨h.marked, fits_describedBits_iff.mpr (by omega)⟩
      split
      · exact absurd rfl (h.ne_minus _)
      · simp only [hread]
  | @minus m body h =>
      have hread : readInteger? body = some (m : Int) :=
        readInteger?_eq_some_iff.mpr ⟨h.marked, fits_describedBits_iff.mpr (by omega)⟩
      have hnegated : negated m = .ok (-m) :=
        negated_of_fits (fits_describedBits_iff.mpr (by omega))
      simp only [hread, hnegated]
      rfl

/-- A description of the integer: a number, or a text that spells it. -/
inductive Describes (n : Int) : Json → Prop where
  | number : Describes n (.number (.integer n))
  | text {text : String} {body : List Char} (h : Text.SpellsInt n body)
      (hpadded : Text.Padded body text.toList) : Describes n (.string text)

theorem integerOf_describes {n : Int} {value : Json} (h : Describes n value)
    (hn : n.natAbs < 2 ^ 127) : integerOf value = .ok n := by
  cases h with
  | number => rfl
  | text h hpadded => exact integerOfText_spelled h hn hpadded

/-! ## The values they become -/

/-- The number that stands for `n` in the type: of those that differ from it by a multiple of
`2 ^ t.bits`, the one in the range of the type. -/
def IntegerType.residue (t : IntegerType) (n : Int) : Int :=
  if t.isSigned then n.bmod (2 ^ t.bits) else n % 2 ^ t.bits

theorem toNat_ofInt (bits : Nat) (n : Int) :
    ((BitVec.ofInt bits n).toNat : Int) = n % 2 ^ bits := by
  have hpositive : (0 : Int) ≤ n % 2 ^ bits := Int.emod_nonneg n (by positivity)
  rw [BitVec.toNat_ofInt, Nat.cast_pow, Nat.cast_ofNat, Int.toNat_of_nonneg hpositive]

/-- A signed type extends the sign and any other type zeros; either cuts what is too long. -/
theorem IntegerType.word_ofInt (t : IntegerType) (n : Int) :
    ((t.word (BitVec.ofInt t.bits n)).toNat : Int) = t.residue n % 2 ^ 32 := by
  have hword : (t.word (BitVec.ofInt t.bits n)).toNat =
      (if t.isSigned then (BitVec.ofInt t.bits n).signExtend 32
        else (BitVec.ofInt t.bits n).setWidth 32).toNat := rfl
  rw [hword, residue]
  split
  · rw [BitVec.signExtend, toNat_ofInt, BitVec.toInt_ofInt]
  · rw [BitVec.toNat_setWidth, Int.natCast_emod, toNat_ofInt]
    rfl

theorem PatchValue.toBytes_ofInt (t : IntegerType) (n : Int) :
    (PatchValue.ofInt t n).toBytes = littleEndian t.size (n % 2 ^ t.bits).toNat := by
  have hpattern : (BitVec.ofInt t.bits n).toNat = (n % 2 ^ t.bits).toNat := by
    rw [← toNat_ofInt, Int.toNat_natCast]
  rw [← hpattern]
  rfl

/-- An option of an integer type is worth the integer that it is described by, in whatever way:
by its digits in base ten, by those in base sixteen, with blanks around them, or as a number.  It
is written as its residue, and as that seen by expressions. -/
theorem integer_option_as_described {t : IntegerType} {typeName : String}
    (htype : OptionType.ofName? typeName = some (.integer t)) {n : Int}
    (hn : n.natAbs < 2 ^ 127) :
    Text.SpellsInt n (toString n).toList ∧ (∀ upper, Text.SpellsInt n (Text.signedHex upper n)) ∧
      (∀ description value, Json.field? "type" description = some (.string typeName) →
        Json.field? "val" description = some value → Describes n value →
        optionValue description = .ok (.ofInt t n)) ∧
      (PatchValue.ofInt t n).toBytes = littleEndian t.size (n % 2 ^ t.bits).toNat ∧
      ((PatchValue.ofInt t n).word.toNat : Int) = t.residue n % 2 ^ 32 := by
  refine ⟨Text.spellsInt_toString n, fun upper => Text.spellsInt_signedHex upper n, ?_,
    PatchValue.toBytes_ofInt t n, t.word_ofInt n⟩
  intro description value htypeField hvalueField hdescribes
  have hvalue := integerOf_describes hdescribes hn
  simp only [optionValue, htypeField, hvalueField, Option.bind_some, Json.string?, htype,
    OptionType.valueOf, hvalue]
  rfl

/-- An integer that needs more than eight bits and is negative, in three ways. -/
theorem sample_integer_option :
    let described (value : Json) :=
      optionValue (.object [("type", .string "i8"), ("val", value)])
    described (.number (.integer (-0x1A34))) = .ok (.ofInt .i8 (-0x1A34)) ∧
      described (.string "-6708") = .ok (.ofInt .i8 (-0x1A34)) ∧
      described (.string " -0X1A34\n") = .ok (.ofInt .i8 (-0x1A34)) ∧
      (PatchValue.ofInt .i8 (-0x1A34)).toBytes = [0xCC] ∧
      ((PatchValue.ofInt .i8 (-0x1A34)).word.toNat : Int) = 0xFFFFFFCC := by
  obtain ⟨hdecimal, -, hvalue, hbytes, hword⟩ :=
    integer_option_as_described (rfl : OptionType.ofName? "i8" = some (.integer .i8))
      (by decide : (-0x1A34 : Int).natAbs < 2 ^ 127)
  have hdescribed := fun value hdescribes =>
    hvalue (.object [("type", .string "i8"), ("val", value)]) value rfl rfl hdescribes
  have hhex : Text.SpellsInt (-0x1A34) ['-', '0', 'X', '1', 'A', '3', '4'] :=
    .minus (.hex (Or.inr rfl) (Text.isNumeral_hexDigits true 0x1A34))
  refine ⟨hdescribed _ .number, hdescribed _ (.text hdecimal ?_), hdescribed _ (.text hhex ?_),
    hbytes, hword⟩
  · exact ⟨[], [], rfl, nofun, nofun⟩
  · exact ⟨[' '], ['\n'], rfl, List.forall_mem_singleton.mpr rfl, List.forall_mem_singleton.mpr rfl⟩

end CodePatch
