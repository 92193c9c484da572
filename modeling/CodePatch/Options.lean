/-
# Patch options

Named, typed values that a configuration sets before anything else is applied.
An option is described by a `type` and a `val`.  An integer may be given as a
number or as text in decimal or, behind `0x`, in hexadecimal; it is cut to its
type, never refused for its size.  A text option ends in a terminator.

Descriptions that make no sense are reported and left out; of two options with
one name the later counts.  A text whose minus sign cannot be taken account of in
the width of described integers is no such description: its negation overflows,
and ends the reading of the whole block.
-/
import CodePatch.PatchValue
import CodePatch.Error
import CodePatch.Journal
import CodePatch.Text.Blank
import CodePatch.Text.Encoding
import CodePatch.Text.Numeral

namespace CodePatch

/-- The types that an option can have. -/
inductive OptionType where
  | integer (type : IntegerType)
  | single
  | double
  | text
  | wideText
deriving DecidableEq, Repr

namespace OptionType

/-- The names of the types; most have a short one too. -/
def names : List (String × OptionType) :=
  [("i8", .integer .i8), ("u8", .integer .u8), ("b", .integer .u8),
   ("i16", .integer .i16), ("u16", .integer .u16), ("w", .integer .u16),
   ("i32", .integer .i32), ("i", .integer .i32), ("u32", .integer .u32), ("d", .integer .u32),
   ("i64", .integer .i64), ("u64", .integer .u64), ("q", .integer .u64),
   ("f32", .single), ("f", .single), ("f64", .double), ("double", .double),
   ("s", .text), ("string", .text), ("ws", .wideText), ("wstring", .wideText)]

def ofName? (name : String) : Option OptionType :=
  names.lookup name

end OptionType

/-- Why a description has no value. -/
inductive OptionFailure where
  /-- It makes no sense. -/
  | invalid (problem : OptionProblem)
  | overflow (kind : Overflow)
deriving DecidableEq, Repr

/-- The width of the integers that a description can hold. -/
def describedBits : Nat := 128

/-- The negation of a described integer.  The least of them has no counterpart in
their width. -/
def negated (n : Int) : Except Overflow Int :=
  if -n < (1 <<< (describedBits - 1) : Nat) then .ok (-n) else .error .negate

/-- An integer in decimal or, behind `0x`, in hexadecimal.  Its digits may carry
a sign. -/
def readInteger? (text : List Char) : Option Int :=
  let value := match Text.afterHexMark? text with
    | some hex => Text.readSigned 16 describedBits hex
    | none => Text.readSigned 10 describedBits text
  value.toOption

/-- The integer that a text describes, with blanks around it.  A minus sign in
front negates what follows, which may carry a sign of its own. -/
def integerOfText (text : List Char) : Except OptionFailure Int :=
  match Text.trim text with
  | '-' :: rest =>
    match readInteger? rest with
    | some n => (negated n).mapError .overflow
    | none => .error (.invalid .notInteger)
  | body =>
    match readInteger? body with
    | some n => .ok n
    | none => .error (.invalid .notInteger)

/-- The integer that a value describes.  A float loses its fraction. -/
def integerOf : Json → Except OptionFailure Int
  | .number (.integer n) => .ok n
  | .number (.float bits) => .ok (BinaryFloat.truncate64 describedBits bits)
  | .string text => integerOfText text.toList
  | .bool true => .ok 1
  | .bool false => .ok 0
  | _ => .error (.invalid .notInteger)

/-- The double that a value describes. -/
def doubleOf? : Json → Option UInt64
  | .number n => some n.double
  | .string text => BinaryFloat.readDouble? (Text.trim text.toList)
  | _ => none

/-- A text in UTF-8, with a zero byte behind it. -/
def narrowText (text : String) : List UInt8 :=
  Text.utf8 text ++ [0]

/-- A text in little-endian UTF-16, with a zero unit behind it. -/
def wideText (text : String) : List UInt8 :=
  (Text.utf16 text ++ [0]).flatMap fun (unit : UInt16) => littleEndian 2 unit.toNat

/-- The value of the given type that `val` describes. -/
def OptionType.valueOf (type : OptionType) (val : Json) : Except OptionFailure PatchValue :=
  match type with
  | .integer t => (integerOf val).map (.ofInt t)
  | .single => match doubleOf? val with
    | some bits => .ok (.single (BinaryFloat.narrow bits))
    | none => .error (.invalid .notNumber)
  | .double => match doubleOf? val with
    | some bits => .ok (.double bits)
    | none => .error (.invalid .notNumber)
  | .text => match val.string? with
    | some content => .ok (.text (narrowText content))
    | none => .error (.invalid .notText)
  | .wideText => match val.string? with
    | some content => .ok (.text (CodePatch.wideText content))
    | none => .error (.invalid .notText)

/-- The value that an option's description stands for. -/
def optionValue (description : Json) : Except OptionFailure PatchValue :=
  match (description.field? "type").bind Json.string? with
  | none => .error (.invalid .missingType)
  | some name =>
    match OptionType.ofName? name with
    | none => .error (.invalid (.unknownType name))
    | some type =>
      match description.field? "val" with
      | none => .error (.invalid .missingValue)
      | some val => type.valueOf val

/-- The options that are set, each name once. -/
structure Options where
  values : List (String × PatchValue) := []
deriving DecidableEq, Repr, Inhabited

namespace Options

/-- `values` with `name` set, in place if it is there. -/
def setValue (name : String) (value : PatchValue) :
    List (String × PatchValue) → List (String × PatchValue)
  | [] => [(name, value)]
  | (n, v) :: rest => if n = name then (n, value) :: rest else (n, v) :: setValue name value rest

def set (o : Options) (name : String) (value : PatchValue) : Options :=
  ⟨setValue name value o.values⟩

def get? (o : Options) (name : String) : Option PatchValue :=
  o.values.lookup name

def size (o : Options) : Nat :=
  o.values.length

def isEmpty (o : Options) : Bool :=
  o.values.isEmpty

/-- Adds every option of a block that makes sense.  Returns how many did, the
options, and what is said about the others. -/
def addBlock (o : Options) : List (String × Json) → Except Overflow (Nat × Options × Journal)
  | [] => .ok (0, o, [])
  | (name, description) :: rest =>
    match optionValue description with
    | .ok value =>
      ((o.set name value).addBlock rest).map fun (added, o, said) => (added + 1, o, said)
    | .error (.invalid problem) =>
      let complaint := PatchError.invalidConfig (.option name problem)
      (o.addBlock rest).map fun (added, o, said) =>
        (added, o, .warn s!"Skipping {complaint.message}" :: said)
    | .error (.overflow kind) => .error kind

/-- What was set last is what is found. -/
theorem get?_set (o : Options) (name other : String) (value : PatchValue) :
    (o.set name value).get? other = if other = name then some value else o.get? other := by
  obtain ⟨values⟩ := o
  unfold set get?
  induction values with
  | nil => by_cases h : other = name <;> simp [setValue, List.lookup_cons, h, beq_false_of_ne]
  | cons entry rest ih =>
    obtain ⟨n, v⟩ := entry
    by_cases h : n = name
    · subst h
      by_cases h' : other = n <;> simp [setValue, List.lookup_cons, h', beq_false_of_ne]
    · by_cases h' : other = n
      · subst h'
        simp [setValue, h]
      · simp only [setValue, h, if_false, List.lookup_cons, beq_false_of_ne h'] at ih ⊢
        exact ih

end Options
end CodePatch
