/-
# Compiling code strings

A code string is read piece by piece: blanks, which only separate; bytes of two
hexadecimal digits; numbers, which start with a sign, a point or `0x`; pointers
and options in `[...]` or `<...>`; and sized expressions in parentheses.  One
function reads each kind of piece and says how long it is; `compile` puts the
pieces together, with neighbouring bytes in one chunk.

Errors give the offset, in bytes of UTF-8, of the piece or character at fault,
and the first error from the left is the one reported.
-/
import CodePatch.Code.Chunk

namespace CodePatch

/-- One piece of a code string. -/
inductive Piece where
  | blank
  | byte (value : UInt8)
  | chunk (value : Chunk)
deriving DecidableEq, Repr

namespace Piece

/-- The blanks of a code string. -/
def isSpace (c : Char) : Bool :=
  c = ' ' || c = '\t' || c = '\n' || c = '\x0c' || c = '\r'

/-- The characters that end a number. -/
def endsNumber (c : Char) : Bool :=
  isSpace c || c = '[' || c = '<' || c = '('

def startsNumber : List Char → Bool
  | '+' :: _ | '-' :: _ | '.' :: _ => true
  | text => (Text.afterHexMark? text).isSome

/-! ## Numbers -/

/-- A number in hexadecimal, negated modulo `2 ^ 32` if it has a minus sign. -/
def hexNumber? (negative : Bool) (digits : List Char) : Option PatchValue :=
  match Text.readUnsigned 16 UInt32.size digits with
  | .ok n => some (.integer .u32 (BitVec.ofInt _ (if negative then -(n : Int) else n)))
  | .error _ => none

/-- A decimal number: a single if it ends in `f`, else a double. -/
def floatNumber? (text : List Char) : Option PatchValue :=
  match text.getLast? with
  | some 'f' | some 'F' => (BinaryFloat.readSingle? text.dropLast).map .single
  | _ => (BinaryFloat.readDouble? text).map .double

/-- The value of a number: `+1.5f`, `-2`, `.5`, `0x10`, `-0x10`. -/
def number? (text : List Char) : Option PatchValue :=
  let (negative, unsigned) := match text with
    | '-' :: rest => (true, rest)
    | '+' :: rest => (false, rest)
    | rest => (false, rest)
  match Text.afterHexMark? unsigned with
  | some digits => hexNumber? negative digits
  | none => floatNumber? text

/-- The number at the start of `text`, and its length. -/
def readNumber (offset : Nat) (text : List Char) : Except CodeError (Piece × Nat) :=
  let run := text.takeWhile (!endsNumber ·)
  match number? run with
  | some value => .ok (.chunk (.literal value), run.length)
  | none => .error (.invalidLiteral (String.ofList run) offset)

/-! ## Pointers and options -/

/-- The text up to the bracket `close`.  No other bracket may open before it. -/
def pointerText (start : Nat) (close : Char) : Nat → List Char → Except CodeError (List Char)
  | _, [] => .error (.unterminatedPointer start)
  | offset, c :: rest =>
    if c = '[' ∨ c = '<' then .error (.nestedPointer offset)
    else if c = close then .ok []
    else (pointerText start close (offset + c.utf8Size) rest).map (c :: ·)

/-- The offset behind the `+` of a pointer, in hexadecimal. -/
def pointerOffset (start : Nat) (text : List Char) : Except CodeError UInt32 :=
  let digits := Text.trim text
  match Text.readHexAddress digits with
  | .ok n => .ok n
  | .error _ => .error (.invalidLiteral (String.ofList digits) start)

/-- The chunk that the trimmed text between two brackets stands for. -/
def pointerChunk (start : Nat) (relative : Bool) (name : List Char) : Except CodeError Chunk :=
  match Text.after? ['o', 'p', 't', 'i', 'o', 'n', ':'] name with
  | some option => .ok (.option (String.ofList (Text.trim option)))
  | none =>
    match Text.splitLast? '+' name with
    | none => .ok (.pointer (String.ofList name) 0 relative)
    | some (target, digits) => do
      let offset ← pointerOffset start digits
      return .pointer (String.ofList (Text.trim target)) offset relative

/-- The pointer or option whose bracket opens before `text`. -/
def readPointer (start : Nat) (relative : Bool) (text : List Char) :
    Except CodeError (Piece × Nat) := do
  let inner ← pointerText start (if relative then ']' else '>') (start + 1) text
  let name := Text.trim inner
  if name.isEmpty then .error (.emptyPointer start)
  else
    let chunk ← pointerChunk start relative name
    return (.chunk chunk, inner.length + 2)

/-! ## Sized expressions -/

/-- The text up to the parenthesis that closes one already open; `depth` more
are open. -/
def sizedText? : Nat → List Char → Option (List Char)
  | _, [] => none
  | depth, c :: rest =>
    if c = '(' then (sizedText? (depth + 1) rest).map (c :: ·)
    else if c = ')' then
      match depth with
      | 0 => some []
      | depth + 1 => (sizedText? depth rest).map (c :: ·)
    else (sizedText? depth rest).map (c :: ·)

/-- The sized expression whose parenthesis opens before `text`. -/
def readSized (start : Nat) (text : List Char) : Except CodeError (Piece × Nat) :=
  match sizedText? 0 text with
  | none => .error (.unterminatedExpression start)
  | some inner =>
    match Text.splitFirst? ':' inner with
    | none => .error (.unterminatedExpression start)
    | some (width, expression) =>
      match ValueWidth.ofName? (Text.trim width) with
      | none => .error (.unknownWidth (String.ofList (Text.trim width)) (start + 1))
      | some w =>
        .ok (.chunk (.sized w (String.ofList (Text.trim expression))), inner.length + 2)

/-! ## All pieces -/

/-- The byte whose two digits `text` starts with. -/
def byte? : List Char → Option UInt8
  | high :: low :: _ => do
    let h ← Text.hexDigit? high
    let l ← Text.hexDigit? low
    return UInt8.ofNat (16 * h + l)
  | _ => none

/-- The piece that starts with `c`, and its length. -/
def read (offset : Nat) (c : Char) (rest : List Char) : Except CodeError (Piece × Nat) :=
  if isSpace c then .ok (.blank, 1)
  else if c = '[' then readPointer offset true rest
  else if c = '<' then readPointer offset false rest
  else if c = '(' then readSized offset rest
  else if startsNumber (c :: rest) then readNumber offset (c :: rest)
  else
    match byte? (c :: rest) with
    | some value => .ok (.byte value, 2)
    | none => .error (.malformedCharacter c offset)

/-- The chunks with a piece in front. -/
def putBefore : Piece → List Chunk → List Chunk
  | .blank, chunks => chunks
  | .byte value, .bytes later :: chunks => .bytes (value :: later) :: chunks
  | .byte value, chunks => .bytes [value] :: chunks
  | .chunk value, chunks => value :: chunks

end Piece

namespace Code

/-- The chunks of `text`, which starts at `offset`.  Every piece takes a
character at least, so `steps` may be the length of the text. -/
def chunksFrom : Nat → Nat → List Char → Except CodeError (List Chunk)
  | _, _, [] => .ok []
  | 0, _, _ => .ok []
  | steps + 1, offset, c :: rest => do
    let (piece, length) ← Piece.read offset c rest
    let text := c :: rest
    let later ← chunksFrom steps (offset + Text.utf8Size (text.take length)) (text.drop length)
    return piece.putBefore later

/-- The compiled form of a code string. -/
def compile (text : String) : Except CodeError Code := do
  let chunks ← chunksFrom text.toList.length 0 text.toList
  return ⟨chunks⟩

end Code
end CodePatch
