/-
# What literals are worth

A literal is worth the number that its digits stand for by their places (`Text.numberOf`), from
the base of the module if it has an `R` in front, and all of that modulo `2 ^ 32`; however long
the run of digits is, the value that is put together digit by digit comes to the same.  The run
ends where no digit comes next, and that is all that has to be known of what follows
(`literals_are_worth_their_digits`).

There is one more condition for a run without a mark: a single zero must not have an `x` behind
it, which would make it the mark of another literal.  The base of such a run is told from all of
it, so `12` is twelve and `12a` is `0x12a`.

A literal is ASCII, so its characters are its bytes, and what comes behind may be any bytes, each
taken for a character: the reader of bytes finds the same literals (`atStart?_blurred`).
-/
import CodePatch.Proofs.Expression.Mirror

namespace CodePatch.Literal

/-- A run of digits in front of `tail`, which does not go on with it. -/
structure IsRun (isDigit : Char → Bool) (digits tail : List Char) : Prop where
  nonempty : digits ≠ []
  digits : ∀ c ∈ digits, isDigit c = true
  ends : Ends isDigit tail

theorem IsRun.hexadecimal {digits tail : List Char} (h : IsRun Text.isHexDigit digits tail) :
    Text.IsNumeral 16 digits (Text.numberOf 16 digits) :=
  Text.isNumeral_numberOf h.nonempty fun c hc => Text.exists_digit?_of_isHexDigit (h.digits c hc)

theorem isNumeral_of_isDigit {digits : List Char} (hne : digits ≠ [])
    (h : ∀ c ∈ digits, c.isDigit = true) : Text.IsNumeral 10 digits (Text.numberOf 10 digits) :=
  Text.isNumeral_numberOf hne fun c hc => ⟨_, Text.digit?_of_isDigit (h c hc)⟩

theorem IsRun.value_eq {digits tail : List Char} (h : IsRun Text.isHexDigit digits tail) :
    value (if digits.all Char.isDigit then 10 else 16) digits =
      UInt32.ofNat (Text.numberOf (if digits.all Char.isDigit then 10 else 16) digits) := by
  split
  · rename_i hall
    exact value_of_isNumeral (isNumeral_of_isDigit h.nonempty (List.all_eq_true.mp hall))
  · exact value_of_isNumeral h.hexadecimal

/-- The ways to write a word: in base ten, and in base sixteen with either letters, with zeros
in front or without. -/
def renderings (v : UInt32) : List String :=
  [toString v.toNat, "0x" ++ Text.hex v.toNat, "0x" ++ Text.hexUpper v.toNat, Text.address v,
    Text.addressUpper v]

theorem spells_rendering {v : UInt32} {text : String} (h : text ∈ renderings v) :
    Text.Spells v.toNat text.toList := by
  simp only [renderings, List.mem_cons, List.not_mem_nil, or_false] at h
  rcases h with rfl | rfl | rfl | rfl | rfl
  · rw [show (toString v.toNat).toList = Nat.toDigits 10 v.toNat from Nat.toList_repr]
    exact .decimal (Text.isNumeral_decimal v.toNat)
  · rw [String.toList_append, Text.toList_hex]
    exact .hex (Or.inl rfl) (Text.isNumeral_hexDigits false v.toNat)
  · rw [String.toList_append, Text.toList_hexUpper]
    exact .hex (Or.inl rfl) (Text.isNumeral_hexDigits true v.toNat)
  · rw [Text.toList_address]
    exact .hex (Or.inl rfl) (Text.isNumeral_paddedHex false v.toNat)
  · rw [Text.toList_addressUpper]
    exact .hex (Or.inl rfl) (Text.isNumeral_paddedHex true v.toNat)

/-- Every form of a literal is read up to the end of its digits and is worth their number; in
particular, every word is read back from whatever way it is written.  The length that is read
counts bytes. -/
theorem literals_are_worth_their_digits (moduleBase : UInt32) (tail : List Char) :
    (∀ digits mark, IsRun Text.isHexDigit digits tail → mark = 'x' ∨ mark = 'X' →
      atStart? moduleBase ('0' :: mark :: (digits ++ tail)) =
        some (UInt32.ofNat (Text.numberOf 16 digits), 2 + digits.length) ∧
      ∀ letter, letter = 'r' ∨ letter = 'R' →
        atStart? moduleBase (letter :: mark :: (digits ++ tail)) =
          some (moduleBase + UInt32.ofNat (Text.numberOf 16 digits), 2 + digits.length)) ∧
    (∀ digits letter, IsRun Char.isDigit digits tail → letter = 'r' ∨ letter = 'R' →
      atStart? moduleBase (letter :: (digits ++ tail)) =
        some (moduleBase + UInt32.ofNat (Text.numberOf 10 digits), 1 + digits.length)) ∧
    (∀ digits, IsRun Text.isHexDigit digits tail → digits.head?.any Char.isDigit = true →
      (digits = ['0'] → ∀ c ∈ tail.head?, c ≠ 'x' ∧ c ≠ 'X') →
      atStart? moduleBase (digits ++ tail) =
        some (UInt32.ofNat (Text.numberOf (if digits.all Char.isDigit then 10 else 16) digits),
          digits.length)) ∧
    (∀ v text, text ∈ renderings v → Closes tail →
      atStart? moduleBase (text.toList ++ tail) = some (v, text.length)) ∧
    ∀ text value length, atStart? moduleBase text = some (value, length) →
      Text.utf8Size (text.take length) = length := by
  refine ⟨?_, ?_, ?_, ?_, ?_⟩
  · intro digits mark hrun hmark
    exact ⟨atStart?_hex moduleBase hmark hrun.hexadecimal hrun.ends, fun letter hletter =>
      atStart?_relativeHex moduleBase hletter hmark hrun.hexadecimal hrun.ends⟩
  · intro digits letter hrun hletter
    have hnumeral := isNumeral_of_isDigit hrun.nonempty hrun.digits
    exact atStart?_relative moduleBase hletter hnumeral hrun.ends
  · intro digits hrun hfirst hmark
    rw [atStart?_plain moduleBase hfirst hrun.digits hrun.ends hmark, hrun.value_eq]
  · intro v text hrendering htail
    rw [atStart?_spelled moduleBase (spells_rendering hrendering) htail, UInt32.ofNat_toNat,
      String.length_toList]
  · intro text value length hread
    exact (takes_atStart? hread).utf8Size_take

/-- Literals of each form; the last two do not fit in a word. -/
theorem sample_literals :
    let read (text : String) := atStart? 0x400000 text.toList
    read "0x1F+2" = some (0x1F, 4) ∧ read "rX1000]" = some (0x401000, 6) ∧
      read "R16" = some (0x400010, 3) ∧ read "0ff)" = some (0xFF, 3) ∧
      read "4294967297 " = some (1, 10) ∧ read "0xffffffff" = some (0xFFFFFFFF, 10) := by
  have hread := literals_are_worth_their_digits 0x400000
  have hends : ∀ c rest, Text.isHexDigit c = false → Ends Text.isHexDigit (c :: rest) := by
    rintro c rest hc _ ⟨⟩
    exact hc
  refine ⟨?_, ?_, ?_, ?_, ?_, ?_⟩
  · exact ((hread ['+', '2']).1 ['1', 'F'] 'x'
      ⟨nofun, List.all_eq_true.mp rfl, hends '+' _ rfl⟩ (Or.inl rfl)).1
  · exact ((hread [']']).1 ['1', '0', '0', '0'] 'X'
      ⟨nofun, List.all_eq_true.mp rfl, hends ']' _ rfl⟩ (Or.inr rfl)).2 'r' (Or.inl rfl)
  · exact (hread []).2.1 ['1', '6'] 'R' ⟨nofun, List.all_eq_true.mp rfl, nofun⟩ (Or.inr rfl)
  · exact (hread [')']).2.2.1 ['0', 'f', 'f']
      ⟨nofun, List.all_eq_true.mp rfl, hends ')' _ rfl⟩ rfl nofun
  · exact (hread [' ']).2.2.1 ['4', '2', '9', '4', '9', '6', '7', '2', '9', '7']
      ⟨nofun, List.all_eq_true.mp rfl, hends ' ' _ rfl⟩ rfl nofun
  · exact (hread []).2.2.2.1 0xFFFFFFFF "0xffffffff" (by decide) closes_nil

end CodePatch.Literal
