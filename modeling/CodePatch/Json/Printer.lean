/-
# Writing a document

The compact form, without any space, is what messages quote.  The laid-out form
gives every item a line of its own, indented by its depth.  Of the characters
of a string only the quote, the backslash and the control characters are
escaped, the latter by their letter if they have one.
-/
import CodePatch.Json.Basic
import CodePatch.Text.Hex

namespace CodePatch.Json

/-- Doubles are positional from `1e-5` up to `1e16`, keep a point, and sign
their exponents. -/
def numberLayout : BinaryFloat.Layout where
  plainFrom := -5
  plainBelow := 16
  signsExponent := true

def Number.text : Number → String
  | .integer value => toString value
  | .float bits => numberLayout.double bits

/-- One character inside quotes. -/
def escaped (c : Char) : List Char :=
  match c with
  | '"' => ['\\', '"']
  | '\\' => ['\\', '\\']
  | '\x08' => ['\\', 'b']
  | '\x0c' => ['\\', 'f']
  | '\n' => ['\\', 'n']
  | '\r' => ['\\', 'r']
  | '\t' => ['\\', 't']
  | c =>
    if c.toNat < 0x20 then
      ['\\', 'u', '0', '0', Nat.digitChar (c.toNat / 16), Nat.digitChar (c.toNat % 16)]
    else [c]

/-- A string with its quotes. -/
def quoted (text : String) : String :=
  String.ofList ('"' :: text.toList.flatMap escaped ++ ['"'])

mutual

/-- The compact text of a document. -/
def compact : Json → String
  | .null => "null"
  | .bool true => "true"
  | .bool false => "false"
  | .number value => value.text
  | .string value => quoted value
  | .array items => "[" ++ ",".intercalate (compactItems items) ++ "]"
  | .object fields => "\x7b" ++ ",".intercalate (compactFields fields) ++ "\x7d"

def compactItems : List Json → List String
  | [] => []
  | item :: rest => compact item :: compactItems rest

def compactFields : List (String × Json) → List String
  | [] => []
  | (key, item) :: rest => (quoted key ++ ":" ++ compact item) :: compactFields rest

end

/-! ## Laid out -/

/-- The start of a line at a depth. -/
def indent (depth : Nat) : String :=
  String.ofList ('\n' :: List.replicate (2 * depth) ' ')

/-- Lines between two brackets at a depth; nothing between them if there are
none. -/
def bracketed (opening closing : String) (depth : Nat) (lines : List String) : String :=
  if lines.isEmpty then opening ++ closing
  else opening ++ ",".intercalate (lines.map (indent (depth + 1) ++ ·)) ++ indent depth ++ closing

mutual

/-- The laid-out text of a part at a depth. -/
def laidOut (depth : Nat) : Json → String
  | .array items => bracketed "[" "]" depth (laidOutItems (depth + 1) items)
  | .object fields => bracketed "\x7b" "\x7d" depth (laidOutFields (depth + 1) fields)
  | .null => "null"
  | .bool value => (Json.bool value).compact
  | .number value => value.text
  | .string value => quoted value

def laidOutItems (depth : Nat) : List Json → List String
  | [] => []
  | item :: rest => laidOut depth item :: laidOutItems depth rest

def laidOutFields (depth : Nat) : List (String × Json) → List String
  | [] => []
  | (key, item) :: rest => (quoted key ++ ": " ++ laidOut depth item) :: laidOutFields depth rest

end

end CodePatch.Json
