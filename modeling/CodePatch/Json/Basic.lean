/-
# Structured documents

A configuration is a document of nested objects and lists.  The order in which
an object lists its fields is part of the document, because entries are
applied in that order; so an object is a list of fields, and writing a field
a second time replaces its value where it first stood.

A number keeps whether it was written as an integer.  Integers cover the
signed and the unsigned 64-bit range and nothing beyond; every other number is
the pattern of a double.  The distinction matters: an address or a size must
be written as an integer, and `5.0` is not one.
-/
import CodePatch.BinaryFloat.Shortest

namespace CodePatch

/-- A number of a document. -/
inductive Json.Number where
  | integer (value : Int)
  | float (bits : UInt64)
deriving DecidableEq, Repr

/-- A document or a part of one. -/
inductive Json where
  | null
  | bool (value : Bool)
  | number (value : Json.Number)
  | string (value : String)
  | array (items : List Json)
  | object (fields : List (String × Json))
deriving Repr, Inhabited

namespace Json

namespace Number

/-- The value of an integer that is not negative. -/
def nat? : Number → Option Nat
  | .integer value => if 0 ≤ value then some value.toNat else none
  | .float _ => none

/-- The value of an integer of the signed 64-bit range. -/
def signed? : Number → Option Int
  | .integer value => if value < (1 <<< 63 : Nat) then some value else none
  | .float _ => none

/-- The double nearest to the number. -/
def double : Number → UInt64
  | .integer value => UInt64.ofNat (BinaryFloat.binary64.ofInt value)
  | .float bits => bits

end Number

def string? : Json → Option String
  | .string value => some value
  | _ => none

def bool? : Json → Option Bool
  | .bool value => some value
  | _ => none

def fields? : Json → Option (List (String × Json))
  | .object fields => some fields
  | _ => none

/-- The value of a field; `none` if the document is no object. -/
def field? (key : String) : Json → Option Json
  | .object fields => fields.lookup key
  | _ => none

/-- `fields` with `key` set to `value`: in place if the key is there, else at
the end. -/
def setField (key : String) (value : Json) : List (String × Json) → List (String × Json)
  | [] => [(key, value)]
  | (k, v) :: rest => if k = key then (k, value) :: rest else (k, v) :: setField key value rest

/-- A string, or the strings of a list joined together. -/
def joinedText? : Json → Option String
  | .string value => some value
  | .array items => (items.mapM string?).map String.join
  | _ => none

/-- Setting a field is seen by looking it up, and touches no other field. -/
theorem lookup_setField (key k : String) (value : Json) (fields : List (String × Json)) :
    (setField key value fields).lookup k = if k = key then some value else fields.lookup k := by
  induction fields with
  | nil => by_cases h : k = key <;> simp [setField, List.lookup_cons, h, beq_false_of_ne]
  | cons field rest ih =>
    obtain ⟨k', v⟩ := field
    by_cases h : k' = key
    · subst h
      by_cases h' : k = k' <;> simp [setField, List.lookup_cons, h', beq_false_of_ne]
    · by_cases h' : k = k'
      · subst h'
        simp [setField, h]
      · simp [setField, List.lookup_cons, h, ih, h', beq_false_of_ne]

end Json
end CodePatch
