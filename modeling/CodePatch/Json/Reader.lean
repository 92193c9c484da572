/-
# Reading a document

The grammar is the strict one: no comments, no trailing commas, no leading
zeros, no control characters inside strings, and surrogate escapes only in
pairs.  A document may nest `nestingLimit` levels deep.

A number with a fraction or an exponent, or past the integer range, is a
double.  It is not the double nearest to the written number: the first digits
that fit 64 bits are made a double and then scaled by a double power of ten,
each step rounding once.  For the numbers people write both agree; where they
differ, `scaled?` is the definition.
-/
import CodePatch.Json.Basic
import CodePatch.Text.Ascii

namespace CodePatch.Json

/-- The deepest nesting of lists and objects that is read. -/
def nestingLimit : Nat := 127

/-- A reader returns what it read and the text behind it. -/
abbrev Reading (α : Type) := Option (α × List Char)

def isSpace (c : Char) : Bool :=
  c = ' ' || c = '\n' || c = '\t' || c = '\r'

def skipSpace (cs : List Char) : List Char :=
  cs.dropWhile isSpace

/-! ## Numbers -/

/-- The double `10 ^ n`. -/
def powerOfTen (n : Nat) : BinaryFloat.Number :=
  BinaryFloat.binary64.decode (BinaryFloat.binary64.round (Nat.pow 10 n) 1)

/-- The greatest power of ten that is a double. -/
def greatestPower : Nat := 308

def magnitude : BinaryFloat.Number → Nat × Nat
  | .finite _ m e => BinaryFloat.Number.ratio m e
  | _ => (0, 1)

/-- The double nearest to `x * 10 ^ exponent`, scaled in steps of at most
`greatestPower`; `none` past the greatest double.  No more than `steps + 1`
steps are taken. -/
def scaled? : Nat → Nat → Int → Option Nat
  | steps, x, exponent =>
    let (num, den) := magnitude (BinaryFloat.binary64.decode x)
    let size := exponent.natAbs
    if size ≤ greatestPower then
      let (pnum, pden) := magnitude (powerOfTen size)
      let y := if exponent < 0 then BinaryFloat.binary64.round (num * pden) (den * pnum)
        else BinaryFloat.binary64.round (num * pnum) (den * pden)
      if y = BinaryFloat.binary64.infinity then none else some y
    else if x = 0 then some 0
    else if 0 ≤ exponent then none
    else
      let (pnum, pden) := magnitude (powerOfTen greatestPower)
      match steps with
      | 0 => some 0
      | steps + 1 =>
        scaled? steps (BinaryFloat.binary64.round (num * pden) (den * pnum))
          (exponent + greatestPower)

/-- A double with `significand * 10 ^ exponent` as its magnitude. -/
def floatNumber? (negative : Bool) (significand : Nat) (exponent : Int) : Option Number :=
  (scaled? 8 (BinaryFloat.binary64.round significand 1) exponent).map fun bits =>
    .float (UInt64.ofNat (BinaryFloat.binary64.signed negative bits))

/-- Takes digits into a significand as long as it fits 64 bits.  Returns it,
the number of digits taken, and the rest of the text. -/
def takeDigits : Nat → Nat → List Char → Nat × Nat × List Char
  | significand, taken, [] => (significand, taken, [])
  | significand, taken, c :: rest =>
    if c.isDigit && significand * 10 + (c.toNat - '0'.toNat) < UInt64.size then
      takeDigits (significand * 10 + (c.toNat - '0'.toNat)) (taken + 1) rest
    else (significand, taken, c :: rest)

/-- The exponent part behind a significand, and the number made of both.  An
exponent past `exponentLimit` leaves nothing of the number but its sign, or
puts it out of range. -/
def readExponent (negative : Bool) (significand : Nat) (exponent : Int) (cs : List Char) :
    Reading Number :=
  let (down, digits) := match cs with
    | '-' :: rest => (true, rest)
    | '+' :: rest => (false, rest)
    | rest => (false, rest)
  let run := digits.takeWhile Char.isDigit
  let rest := digits.dropWhile Char.isDigit
  let size := BinaryFloat.digitsValue run
  let exponentLimit := 1 <<< 31
  if run.isEmpty then none
  else if exponentLimit ≤ size then
    if significand ≠ 0 && !down then none
    else some (.float (UInt64.ofNat (BinaryFloat.binary64.signed negative 0)), rest)
  else (floatNumber? negative significand (if down then exponent - size else exponent + size)).map
    fun number => (number, rest)

/-- What may follow the digits of a significand: an exponent or nothing. -/
def finishFloat (negative : Bool) (significand : Nat) (exponent : Int) (cs : List Char) :
    Reading Number :=
  match cs with
  | 'e' :: rest => readExponent negative significand exponent rest
  | 'E' :: rest => readExponent negative significand exponent rest
  | rest => (floatNumber? negative significand exponent).map fun number => (number, rest)

/-- The digits behind a point, at least one.  Those that no longer fit the
significand are passed over. -/
def readFraction (negative : Bool) (significand : Nat) (exponent : Int) (cs : List Char) :
    Reading Number :=
  let (value, taken, rest) := takeDigits significand 0 cs
  let behind := rest.dropWhile Char.isDigit
  if taken = 0 && (cs.takeWhile Char.isDigit).isEmpty then none
  else finishFloat negative value (exponent - taken) behind

/-- An integer if it fits, else the double nearest to it. -/
def wholeNumber (negative : Bool) (significand : Nat) : Option Number :=
  if !negative then some (.integer significand)
  else if 0 < significand && significand ≤ 1 <<< 63 then some (.integer (-significand))
  else floatNumber? negative significand 0

/-- The digits of a number, behind its sign. -/
def readDigits (negative : Bool) (cs : List Char) : Reading Number :=
  match cs with
  | [] => none
  | c :: after =>
    if !c.isDigit then none
    else if c = '0' && (after.head?.any Char.isDigit) then none
    else
      let (significand, _, rest) := takeDigits 0 0 cs
      let overflow := (rest.takeWhile Char.isDigit).length
      match rest.dropWhile Char.isDigit with
      | '.' :: fraction => readFraction negative significand overflow fraction
      | behind =>
        let plain := match behind with
          | 'e' :: _ => false
          | 'E' :: _ => false
          | _ => overflow = 0
        if plain then (wholeNumber negative significand).map fun number => (number, behind)
        else finishFloat negative significand overflow behind

def readNumber (cs : List Char) : Reading Number :=
  match cs with
  | '-' :: rest => readDigits true rest
  | rest => readDigits false rest

/-! ## Strings -/

/-- Four hexadecimal digits. -/
def readUnit : List Char → Option (Nat × List Char)
  | a :: b :: c :: d :: rest => do
    let a ← Text.hexDigit? a
    let b ← Text.hexDigit? b
    let c ← Text.hexDigit? c
    let d ← Text.hexDigit? d
    return (a * 4096 + b * 256 + c * 16 + d, rest)
  | _ => none

/-- The character of an escape that starts with `u`: one unit, or the two of a
surrogate pair. -/
def readUnicode (cs : List Char) : Reading Char :=
  match readUnit cs with
  | none => none
  | some (high, rest) =>
    if 0xDC00 ≤ high && high < 0xE000 then none
    else if 0xD800 ≤ high && high < 0xDC00 then
      match rest with
      | '\\' :: 'u' :: more =>
        match readUnit more with
        | none => none
        | some (low, behind) =>
          if 0xDC00 ≤ low && low < 0xE000 then
            some (Char.ofNat (0x10000 + (high - 0xD800) * 0x400 + (low - 0xDC00)), behind)
          else none
      | _ => none
    else some (Char.ofNat high, rest)

/-- The character of an escape, behind its backslash. -/
def readEscape : List Char → Reading Char
  | '"' :: rest => some ('"', rest)
  | '\\' :: rest => some ('\\', rest)
  | '/' :: rest => some ('/', rest)
  | 'b' :: rest => some ('\x08', rest)
  | 'f' :: rest => some ('\x0c', rest)
  | 'n' :: rest => some ('\n', rest)
  | 'r' :: rest => some ('\r', rest)
  | 't' :: rest => some ('\t', rest)
  | 'u' :: rest => readUnicode rest
  | _ => none

/-- The characters up to the closing quote, put in front of `done` in reverse.
One step of `steps` is used for each character. -/
def readCharacters : Nat → List Char → List Char → Reading String
  | 0, _, _ => none
  | _ + 1, _, [] => none
  | steps + 1, done, c :: rest =>
    if c = '"' then some (String.ofList done.reverse, rest)
    else if c = '\\' then
      match readEscape rest with
      | some (e, behind) => readCharacters steps (e :: done) behind
      | none => none
    else if c.toNat < 0x20 then none
    else readCharacters steps (c :: done) rest

/-- A string, behind its opening quote. -/
def readString (cs : List Char) : Reading String :=
  readCharacters (cs.length + 1) [] cs

/-! ## Lists, objects, documents -/

/-- Items up to the closing bracket, each behind a comma but the first. -/
def readItems (value : List Char → Reading Json) : Nat → List Json → List Char →
    Reading (List Json)
  | 0, _, _ => none
  | steps + 1, done, cs =>
    match value (skipSpace cs) with
    | none => none
    | some (item, rest) =>
      match skipSpace rest with
      | ',' :: more => readItems value steps (item :: done) more
      | ']' :: behind => some ((item :: done).reverse, behind)
      | _ => none

/-- A key, a colon and a value. -/
def readField (value : List Char → Reading Json) (cs : List Char) : Reading (String × Json) :=
  match skipSpace cs with
  | '"' :: rest =>
    match readString rest with
    | none => none
    | some (key, behind) =>
      match skipSpace behind with
      | ':' :: more => (value (skipSpace more)).map fun (item, rest) => ((key, item), rest)
      | _ => none
  | _ => none

/-- Fields up to the closing brace; a repeated key replaces the earlier value. -/
def readFields (value : List Char → Reading Json) : Nat → List (String × Json) → List Char →
    Reading (List (String × Json))
  | 0, _, _ => none
  | steps + 1, done, cs =>
    match readField value cs with
    | none => none
    | some ((key, item), rest) =>
      match skipSpace rest with
      | ',' :: more => readFields value steps (setField key item done) more
      | '\x7d' :: behind => some (setField key item done, behind)
      | _ => none

/-- A value that is neither list nor object. -/
def readScalar (cs : List Char) : Reading Json :=
  match cs with
  | 'n' :: 'u' :: 'l' :: 'l' :: rest => some (.null, rest)
  | 't' :: 'r' :: 'u' :: 'e' :: rest => some (.bool true, rest)
  | 'f' :: 'a' :: 'l' :: 's' :: 'e' :: rest => some (.bool false, rest)
  | '"' :: rest => (readString rest).map fun (text, behind) => (.string text, behind)
  | _ => (readNumber cs).map fun (n, behind) => (.number n, behind)

/-- A value that nests at most `depth` levels. -/
def readValue : Nat → List Char → Reading Json
  | depth, '[' :: rest =>
    match depth with
    | 0 => none
    | depth + 1 =>
      match skipSpace rest with
      | ']' :: behind => some (.array [], behind)
      | inner => (readItems (readValue depth) (inner.length + 1) [] inner).map
          fun (items, behind) => (.array items, behind)
  | depth, '\x7b' :: rest =>
    match depth with
    | 0 => none
    | depth + 1 =>
      match skipSpace rest with
      | '\x7d' :: behind => some (.object [], behind)
      | inner => (readFields (readValue depth) (inner.length + 1) [] inner).map
          fun (fields, behind) => (.object fields, behind)
  | _, cs => readScalar cs

/-- The document that `text` holds, if it holds one and nothing else. -/
def read? (text : String) : Option Json :=
  match readValue nestingLimit (skipSpace text.toList) with
  | some (value, rest) => if (skipSpace rest).isEmpty then some value else none
  | none => none

end CodePatch.Json
