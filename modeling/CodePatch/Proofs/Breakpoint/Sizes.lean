/-
# Sizes as numbers and as text

The two sizes of a breakpoint may be given as numbers of the document or as text, and a text
is read as a literal is.  Literals count modulo `2 ^ 32`, numbers do not: a text that spells
`n` means the number `n % 2 ^ 32` (`integer?_spelled`), whatever base it is in.

Up to `2 ^ 32` that makes no difference, and an entry with the number and one with the text
describe the same breakpoint, or are refused alike.  From there on every number is refused
for its size, but the text goes on to mean a small number (`spelled_size_is_cut`).  So the
checks of either size, which refuse what is too large, do not see how large a spelled size is.
-/
import CodePatch.Proofs.Expression.Tokens
import CodePatch.Breakpoint.Basic

namespace CodePatch

namespace Breakpoint

theorem integer?_spelled {text : String} {body : List Char} {n : Nat} (h : Text.Spells n body)
    (htext : Text.Padded body text.toList) :
    integer? (.string text) = some (n % 2 ^ 32) := by
  have hread := Literal.atStart?_spelled 0 h Literal.closes_nil
  rw [List.append_nil] at hread
  simp only [integer?, h.trimmed.trim_of_padded htext, hread, if_true]
  exact congrArg some UInt32.toNat_ofNat'

theorem integer?_number (n : Nat) : integer? (.number (.integer n)) = some n := by
  have hvalue : integer? (.number (.integer n)) = if (0 : Int) ≤ n then some n else none := rfl
  rw [hvalue, if_pos (Int.natCast_nonneg n)]

/-! ## Entries -/

section Fields
variable {entry value : Json} {n : Nat} (h : integer? value = some n)
include h

theorem caveSizeOf_eq (hfield : entry.field? "cavesize" = some value) :
    caveSizeOf entry = if n < UInt32.size then .ok n else .error .sizeTooLarge := by
  simp only [caveSizeOf, hfield, h]

theorem stackClearOf_eq (hfield : entry.field? "stack_clear_size" = some value) :
    stackClearOf entry =
      if n < UInt16.size then .ok (UInt16.ofNat n) else .error .badStackClear := by
  unfold stackClearOf
  rw [hfield]
  cases value with
  | number | string => simp only [h]
  | null | bool | array | object => cases h

end Fields

/-- The fields of an entry that hold a size. -/
def sizeFields : List String := ["cavesize", "stack_clear_size"]

/-- The breakpoint without the entry that it comes from. -/
def detached (bp : Breakpoint) : Breakpoint :=
  { bp with config := .null }

theorem ofJson_congr (name : String) {fields fields' : List (String × Json)}
    (hcave : caveSizeOf (.object fields) = caveSizeOf (.object fields'))
    (hclear : stackClearOf (.object fields) = stackClearOf (.object fields'))
    (hothers : ∀ key, key ∉ sizeFields →
      (Json.object fields).field? key = (Json.object fields').field? key) :
    (ofJson name (.object fields)).map detached = (ofJson name (.object fields')).map detached := by
  simp only [ofJson, TargetAddress.ofEntry, hcave, hclear, hothers "addr" (by decide),
    hothers "expected" (by decide), hothers "ignore" (by decide)]
  rcases caveSizeOf (.object fields') with problem | caveSize
  · rfl
  rcases stackClearOf (.object fields') with problem | stackClear
  · rfl
  rcases (Json.object fields').field? "addr" with _ | value
  · rfl
  rcases hlist : TargetAddress.listOfJson value with problem | addresses
  · simp only [hlist]
    rfl
  · simp only [hlist]
    rfl

theorem field?_setField (key other : String) (value : Json) (fields : List (String × Json)) :
    (Json.object (Json.setField key value fields)).field? other =
      if other = key then some value else (Json.object fields).field? other :=
  Json.lookup_setField key other value fields

section Set
variable (name : String) {key : String} (hkey : key ∈ sizeFields)
  (fields : List (String × Json)) {value value' : Json} {n : Nat} (h : integer? value = some n)
include hkey h

/-- Two values that are the same size make no difference to an entry. -/
theorem ofJson_setField_congr (h' : integer? value' = some n) :
    (ofJson name (.object (Json.setField key value fields))).map detached =
      (ofJson name (.object (Json.setField key value' fields))).map detached := by
  have hfield := fun other value => field?_setField key other value fields
  refine ofJson_congr name ?_ ?_ fun other hout => ?_
  · by_cases heq : "cavesize" = key
    · rw [caveSizeOf_eq h ((hfield _ _).trans (if_pos heq)),
        caveSizeOf_eq h' ((hfield _ _).trans (if_pos heq))]
    · simp only [caveSizeOf, hfield, if_neg heq]
  · by_cases heq : "stack_clear_size" = key
    · rw [stackClearOf_eq h ((hfield _ _).trans (if_pos heq)),
        stackClearOf_eq h' ((hfield _ _).trans (if_pos heq))]
    · simp only [stackClearOf, hfield, if_neg heq]
  · have hne : other ≠ key := fun heq => hout (heq ▸ hkey)
    rw [hfield, hfield, if_neg hne, if_neg hne]

theorem ofJson_setField_large (hlarge : 2 ^ 32 ≤ n) :
    ∃ e, ofJson name (.object (Json.setField key value fields)) = .error e := by
  have hfield : (Json.object (Json.setField key value fields)).field? key = some value :=
    (field?_setField key key value fields).trans (if_pos rfl)
  simp only [sizeFields, List.mem_cons, List.not_mem_nil, or_false] at hkey
  simp only [ofJson]
  rcases hkey with rfl | rfl
  · have hbeyond : ¬ n < UInt32.size := Nat.not_lt.mpr hlarge
    rw [caveSizeOf_eq h hfield, if_neg hbeyond]
    exact ⟨_, rfl⟩
  · have hbeyond : ¬ n < UInt16.size := Nat.not_lt.mpr (Nat.le_trans (by decide) hlarge)
    rw [stackClearOf_eq h hfield, if_neg hbeyond]
    rcases caveSizeOf (.object (Json.setField "stack_clear_size" value fields)) with _ | _
    · exact ⟨_, rfl⟩
    · exact ⟨_, rfl⟩

end Set

/-- A size that is spelled out means the number modulo `2 ^ 32`: the entry describes what it
describes with that number, or is refused for the same reason.  The number itself does as well if
it has 32 bits, and is refused if it has more. -/
theorem spelled_size_is_cut (name : String) {key : String} (hkey : key ∈ sizeFields)
    (fields : List (String × Json)) {n : Nat} {body : List Char} (hbody : Text.Spells n body)
    {text : String} (htext : Text.Padded body text.toList) :
    let given (value : Json) := ofJson name (.object (Json.setField key value fields))
    let number (n : Nat) := Json.number (.integer n)
    (given (.string text)).map detached = (given (number (n % 2 ^ 32))).map detached ∧
      (n < 2 ^ 32 → (given (.string text)).map detached = (given (number n)).map detached) ∧
      (2 ^ 32 ≤ n → ∃ e, given (number n) = .error e) := by
  have hspelled := integer?_spelled hbody htext
  have hcut := ofJson_setField_congr name hkey fields hspelled (integer?_number (n % 2 ^ 32))
  refine ⟨hcut, fun hsmall => ?_, ofJson_setField_large name hkey fields (integer?_number n)⟩
  rwa [Nat.mod_eq_of_lt hsmall] at hcut

/-- An entry without the size of arguments. -/
def sampleFields : List (String × Json) :=
  [("addr", .number (.integer 0x401000)), ("cavesize", .number (.integer 5))]

/-- The size of arguments in base sixteen, with blanks around it, and in base ten with more than
32 bits. -/
theorem sample_spelled_sizes :
    let given (value : Json) :=
      ofJson "enter" (.object (Json.setField "stack_clear_size" value sampleFields))
    (given (.string " 0x1C\n")).map detached = (given (.number (.integer 28))).map detached ∧
      (given (.string "4294967324")).map detached =
        (given (.number (.integer 28))).map detached ∧
      ∃ e, given (.number (.integer 4294967324)) = .error e := by
  have hhex : Text.Spells 28 ['0', 'x', '1', 'C'] :=
    .hex (Or.inl rfl) (Text.isNumeral_hexDigits true 28)
  have hdecimal : Text.Spells 4294967324 (Nat.toDigits 10 4294967324) :=
    .decimal (Text.isNumeral_decimal _)
  have hblanks : Text.Padded ['0', 'x', '1', 'C'] " 0x1C\n".toList :=
    ⟨[' '], ['\n'], rfl, List.forall_mem_singleton.mpr rfl, List.forall_mem_singleton.mpr rfl⟩
  have hplain : Text.Padded (Nat.toDigits 10 4294967324) "4294967324".toList :=
    ⟨[], [], by decide +kernel, nofun, nofun⟩
  have hkey : "stack_clear_size" ∈ sizeFields := by decide
  have hsmall := spelled_size_is_cut "enter" hkey sampleFields hhex hblanks
  have hlarge := spelled_size_is_cut "enter" hkey sampleFields hdecimal hplain
  exact ⟨hsmall.2.1 (by decide), hlarge.1, hlarge.2.2 (by decide)⟩

/-- A size that is refused as a number is taken as text, for what its low 32 bits are. -/
theorem refused_size_is_taken_as_text :
    ofJson "enter"
        (.object (Json.setField "cavesize" (.number (.integer 4294967301)) sampleFields)) =
        .error (.breakpoint "enter" .sizeTooLarge) ∧
      (ofJson "enter" (.object (Json.setField "cavesize" (.string "4294967301") sampleFields))).map
        (·.caveSize) = .ok 5 :=
  ⟨rfl, rfl⟩

end Breakpoint
end CodePatch
