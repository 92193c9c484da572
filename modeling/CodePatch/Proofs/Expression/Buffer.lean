/-
# Reading in place

`evaluate` carries the rest of its text along, so there is nothing that it could
read beyond.  Here the same reading is done in place: over the bytes of the whole
text, with a position and a limit that are moved to and fro as brackets open and
close.  Nothing keeps such a reader within its bounds but its own care.

So every access is checked.  An index must be in range; a slice must be in range
and start and end between characters; a token must end at the limit or before it;
what is counted down must not be zero; and as many bytes must come from memory as
were asked for.  Whatever is not so is `crashed`.  A loop that does not run over a
range counts its steps, and is `unfinished` when they run out.
-/
import CodePatch.Proofs.Text.Utf8
import CodePatch.Expression.Evaluate

namespace CodePatch.Expression.Buffer

open Text (asChar asChars asByte decoded?)

/-- Why reading stops. -/
inductive Stop where
  | failed (error : ExpressionError)
  | crashed
  | unfinished
deriving DecidableEq, Repr

/-- Where reading stands: between `position` and `limit`, in a text that counts unless it
is `skipping`, behind so many operators and brackets, after so many reads of memory. -/
structure Place where
  position : Nat := 0
  limit : Nat
  skipping : Bool := false
  depth : Nat := 0
  reads : Nat := 0
deriving DecidableEq, Repr

abbrev Reader := EStateM Stop Place

variable {α : Type}

def fail (error : ExpressionError) : Reader α :=
  throw (.failed error)

/-- The outcome of `read`, after which part of the place is as it was before. -/
def restoring (restore : Place → Place → Place) (read : Reader α) : Reader α := fun before =>
  match read before with
  | .ok value after => .ok value (restore before after)
  | .error stop after => .error stop (restore before after)

/-! ## Checked accesses -/

section Accesses

variable (input : List UInt8)

/-- Does a character start at `index`, or the text end there? -/
def isBoundary (index : Nat) : Bool :=
  match input[index]? with
  | some byte => byte.IsUTF8FirstByte
  | none => index = input.length

def byteAt (index : Nat) : Reader UInt8 :=
  match input[index]? with
  | some byte => pure byte
  | none => throw .crashed

def slice (first last : Nat) : Reader (List UInt8) :=
  if first ≤ last ∧ last ≤ input.length ∧ isBoundary input first ∧ isBoundary input last then
    pure ((input.take last).drop first)
  else throw .crashed

/-- The byte at the position, taken for a character, in front of the limit. -/
def peek : Reader (Option Char) := do
  let place ← get
  if place.position < place.limit then
    if isBoundary input place.position then return some (asChar (← byteAt input place.position))
    else throw .crashed
  else return none

/-- The bytes up to the limit. -/
def rest : Reader (List UInt8) := do
  let place ← get
  slice input place.position place.limit

/-- Goes on behind a token of `length` bytes. -/
def advance (length : Nat) : Reader Unit := do
  let place ← get
  let _ ← slice input place.position (place.position + length)
  if place.position + length ≤ place.limit then
    set { place with position := place.position + length }
  else throw .crashed

def skipBlanksIn : Nat → Reader Unit
  | 0 => throw .unfinished
  | steps + 1 => do
    if (← peek input).any Cursor.isSpace then
      advance input 1
      skipBlanksIn steps
    else return ()

def skipBlanks : Reader Unit := do
  let place ← get
  skipBlanksIn input (place.limit - place.position + 1)

/-- The failure that the character at the position has no place here.  Its bytes may
go on behind the limit. -/
def unknown (first : Char) : Reader α := do
  let place ← get
  let behind ← slice input place.position input.length
  let character := ((decoded? behind).bind List.head?).getD first
  fail (.unknownCharacter character place.position)

/-- Nothing but blanks may be left in front of the limit. -/
def expectLimit : Reader Unit := do
  skipBlanks input
  let place ← get
  match ← peek input with
  | none => return ()
  | some '(' | some ')' => fail (.unmatchedGrouping place.position)
  | some '[' | some ']' | some '<' | some '>' => fail (.unmatchedValueBrackets place.position)
  | some first => unknown input first

/-- Looks at `count` bytes from `index` on for the one that closes the first bracket;
`depth` are open before them. -/
def matchingIn (opens closes : Char) (error : ExpressionError) : Nat → Nat → Nat → Reader Nat
  | 0, _, _ => fail error
  | count + 1, index, depth => do
    let byte ← byteAt input index
    if byte = asByte opens then matchingIn opens closes error count (index + 1) (depth + 1)
    else if byte = asByte closes then
      if depth = 0 then throw .crashed
      else if depth = 1 then return index
      else matchingIn opens closes error count (index + 1) (depth - 1)
    else matchingIn opens closes error count (index + 1) depth

/-- Where the bracket at the position is closed. -/
def matching (opens closes : Char) (error : ExpressionError) : Reader Nat := do
  let place ← get
  matchingIn input opens closes error (place.limit - place.position) place.position 0

end Accesses

/-! ## Operators -/

section Operators

variable (input : List UInt8)

/-- Reads what does not count if `skip` is set. -/
def skippable (skip : Bool) (read : Reader α) : Reader α :=
  restoring (fun before after => { after with skipping := before.skipping }) do
    modify fun place => { place with skipping := place.skipping || skip }
    read

def combine (op : BinaryOp) (lhs rhs : UInt32) (offset : Nat) : Reader UInt32 := do
  let place ← get
  match op.apply lhs rhs with
  | some value => return value
  | none => if place.skipping then return 0 else fail (.divisionByZero offset)

def expectColon : Reader Unit := do
  skipBlanks input
  let place ← get
  match ← peek input with
  | some ':' => advance input 1
  | some first => unknown input first
  | none => fail (.unexpectedEnd place.position)

/-- What an operator at `offset` makes of `lhs` and of what stands behind it.  `right` reads
an operand there, and the operators of a given precedence and above that follow it. -/
def operate (right : Nat → Reader UInt32) (op : Operator) (lhs : UInt32) (offset : Nat) :
    Reader UInt32 :=
  match op with
  | .increment => pure lhs
  | .binary .logicalAnd => do
    let rhs ← skippable (lhs == 0) (right (op.precedence + 1))
    return truth (lhs != 0 && rhs != 0)
  | .binary .logicalOr => do
    let rhs ← skippable (lhs != 0) (right (op.precedence + 1))
    return truth (lhs != 0 || rhs != 0)
  | .binary binary => do
    let rhs ← right (op.precedence + 1)
    combine binary lhs rhs offset
  | .orElse => do
    let rhs ← skippable (lhs != 0) (right Operator.ternaryPrecedence)
    return if lhs != 0 then lhs else rhs
  | .ternary => do
    let taken ← skippable (lhs == 0) (right Operator.commaPrecedence)
    expectColon input
    let other ← skippable (lhs != 0) (right Operator.ternaryPrecedence)
    return if lhs != 0 then taken else other
  | .assign none => right Operator.assignPrecedence
  | .assign (some binary) => do
    let rhs ← right Operator.assignPrecedence
    combine binary lhs rhs offset
  | .comma => right Operator.assignPrecedence

/-- Reads operators of precedence `least` and above behind the operand `lhs`. -/
def climb (operand : Reader UInt32) : Nat → Nat → UInt32 → Reader UInt32
  | 0, _, _ => throw .unfinished
  | steps + 1, least, lhs => do
    skipBlanks input
    let place ← get
    match Operator.atStart? (asChars (← rest input)) with
    | none => return lhs
    | some (op, length) =>
      if op.precedence < least then return lhs
      else
        advance input length
        let right (least : Nat) : Reader UInt32 := do
          let first ← operand
          climb operand steps least first
        let value ← operate input right op lhs place.position
        climb operand steps least value

/-- A whole expression.  Each step of its climb takes a byte, and one more finds the end. -/
def expression (operand : Reader UInt32) : Reader UInt32 := do
  let first ← operand
  let place ← get
  climb input operand (place.limit - place.position + 1) Operator.commaPrecedence first

end Operators

/-! ## Operands -/

section Operands

variable (input : List UInt8) (scope : Scope) (operand : Reader UInt32)

/-- The expression between the bracket at the position and the one at `close`; reading goes
on behind that one, whatever comes of the expression. -/
def enclosed (close : Nat) : Reader UInt32 :=
  restoring (fun before after => { after with limit := before.limit, position := close + 1 }) do
    modify fun place => { place with position := place.position + 1, limit := close }
    let value ← expression input operand
    expectLimit input
    return value

def group : Reader UInt32 := do
  let place ← get
  let close ← matching input '(' ')' (.unmatchedGrouping place.position)
  enclosed input operand close

def readWord (cast : Cast) (address : UInt32) : Reader UInt32 := do
  let unreadable := ExpressionError.memoryUnreadable address cast.readSize
  match scope.memory with
  | none => fail unreadable
  | some memory =>
    let place ← get
    set { place with reads := place.reads + 1 }
    match memory.readAfter place.reads address cast.readSize with
    | .ok bytes =>
      if bytes.length = cast.readSize then return UInt32.ofNat (ofLittleEndian bytes)
      else throw .crashed
    | .error _ => fail unreadable

def found (error : ExpressionError) (value : Option UInt32) : Reader UInt32 := do
  let place ← get
  match value with
  | some value => return value
  | none => if place.skipping then return 0 else fail error

/-- What `read` makes of a text, unless that is a name with no meaning. -/
def orName (content : List Char) (read : Reader UInt32) : Reader UInt32 := fun before =>
  match read before with
  | .error (.failed (.unknownCharacter character offset)) after =>
    if looksLikeName content then found (.symbolNotFound (String.ofList content)) none after
    else .error (.failed (.unknownCharacter character offset)) after
  | result => result

def goTo (position : Nat) : Reader Unit :=
  modify fun place => { place with position }

/-- `<...>`, and `[...]` where it embeds an address. -/
def embedded (opens : Char) : Reader UInt32 := do
  let start := (← get).position
  let closes := if opens = '[' then ']' else '>'
  let close ← matching input opens closes (.unmatchedValueBrackets start)
  let relative := opens == '['
  let content := Text.trim ((decoded? (← slice input (start + 1) close)).getD [])
  match caveIn? content with
  | some cave => do
    goTo (close + 1)
    let name := String.ofList cave
    let address ← found (.caveNotFound name) (scope.symbols.get? (Symbols.caveName name))
    return embed scope relative address
  | none =>
    match Text.after? optionMark content with
    | some option => do
      goTo (close + 1)
      let name := String.ofList option
      found (.optionNotFound name) ((scope.options.get? name).map (·.word))
    | none =>
      match scope.symbols.resolve? scope.memory (String.ofList content) with
      | some address => do
        goTo (close + 1)
        return embed scope relative address
      | none => do
        let value ← orName content (enclosed input operand close)
        return embed scope relative value

/-- `[...]`, or behind a cast, where it is `explicit`, only what reads memory. -/
def dereference (cast : Cast) (explicit : Bool) : Reader UInt32 := do
  let start := (← get).position
  if scope.registers.isNone then
    if explicit then fail (.dereferenceWithoutRegisters start)
    else embedded input scope operand '['
  else
    let close ← matching input '[' ']' (.unmatchedValueBrackets start)
    let address ← enclosed input operand close
    if (← get).skipping then return 0 else readWord scope cast address

def atom (first : Char) : Reader UInt32 := do
  let bytes ← rest input
  let register := scope.registers.bind fun registers =>
    (Register.atStart? ((decoded? bytes).getD [])).map registers.get
  match register with
  | some value => do
    advance input Register.nameLength
    return value
  | none =>
    match Literal.atStart? scope.moduleBase (asChars bytes) with
    | some (value, length) => do
      advance input length
      return value
    | none => unknown input first

def primary : Reader UInt32 := do
  let place ← get
  match ← peek input with
  | none => fail (.unexpectedEnd place.position)
  | some '(' => group input operand
  | some '[' =>
    if scope.registers.isSome then dereference input scope operand .u32 false
    else embedded input scope operand '['
  | some '<' => embedded input scope operand '<'
  | some first => atom input scope first

def applied (f : UInt32 → UInt32) : Reader UInt32 := do
  advance input 1
  return f (← operand)

def operandAt : Reader UInt32 := do
  skipBlanks input
  match Cast.atStart? (asChars (← rest input)) with
  | some (cast, length) => do
    advance input length
    skipBlanks input
    let raw ← if (← peek input) = some '[' then dereference input scope operand cast true
      else operand
    return cast.convert raw
  | none =>
    match ← peek input with
    | some '!' => applied input operand fun v => truth (v == 0)
    | some '~' => applied input operand fun v => ~~~v
    | some '-' => applied input operand fun v => 0 - v
    | some '+' => applied input operand id
    | _ => primary input scope operand

end Operands

/-- An operand, as deep as the place allows. -/
def unary (input : List UInt8) (scope : Scope) : Nat → Reader UInt32
  | 0 => throw .unfinished
  | levels + 1 => do
    let place ← get
    if nestingLimit ≤ place.depth then fail (.nestingTooDeep place.position)
    else
      restoring (fun _ after => { after with depth := after.depth - 1 }) do
        modify fun place => { place with depth := place.depth + 1 }
        operandAt input scope (unary input scope levels)

/-! ## Whole texts -/

/-- The index of the first `stop` outside parentheses and square brackets, of which `depth`
are open in front of the bytes from `index` on.  As in `before?`, the depth is an exact
number, which a count of 32 bits agrees with in inputs of fewer than `2 ^ 31` brackets. -/
def terminatorFrom (stop : UInt8) : Nat → Int → List UInt8 → Option Nat
  | _, _, [] => none
  | index, depth, byte :: bytes =>
    if byte = stop ∧ depth ≤ 0 then some index
    else
      let depth := if byte = asByte '(' ∨ byte = asByte '[' then depth + 1
        else if byte = asByte ')' ∨ byte = asByte ']' then depth - 1
        else depth
      terminatorFrom stop (index + 1) depth bytes

def terminator? (stop : UInt8) (input : List UInt8) : Option Nat :=
  terminatorFrom stop 0 0 input

/-- Where reading has to end: at the terminator, or with the text. -/
def limit (stop : Option UInt8) (input : List UInt8) : Nat :=
  (stop.bind (terminator? · input)).getD input.length

/-- The value of the text up to the limit; what was read is sliced once more for the log. -/
def whole (input : List UInt8) (scope : Scope) : Reader Evaluation := do
  let value ← expression input (unary input scope (nestingLimit + 1))
  expectLimit input
  let place ← get
  let _ ← slice input 0 place.position
  return ⟨value, place.position⟩

/-- The value of the text up to `stop`, and the number of times memory was read. -/
def evaluateCounting (scope : Scope) (input : List UInt8) (stop : Option UInt8) :
    Except Stop Evaluation × Nat :=
  match whole input scope { limit := limit stop input } with
  | .ok evaluation place => (.ok evaluation, place.reads)
  | .error stop place => (.error stop, place.reads)

end CodePatch.Expression.Buffer
