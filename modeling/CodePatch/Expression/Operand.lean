/-
# Operands

An operand is a literal, a register, a bracketed expression, an embedded
address or option, a dereference, or one of these behind unary operators and
casts.  `operand` nests: each unary operator and each pair of brackets takes
one level, and only `nestingLimit` levels are there to take, so the levels
left are what the recursion runs on.

The text between `<` and `>`, and without registers between `[` and `]`, is
first taken for a name: a code cave, an option, or an address that is bound.
If it is none of these it is an expression, and a text that looks like a name
but does not evaluate is reported as a name that is not found.
-/
import CodePatch.Expression.Climb
import CodePatch.Expression.Cast
import CodePatch.Expression.Literal
import CodePatch.Expression.Scope

namespace CodePatch.Expression

/-- The deepest nesting of unary operators and brackets that is read. -/
def nestingLimit : Nat := 128

/-- The name that an option is embedded behind. -/
def optionMark : List Char := ['o', 'p', 't', 'i', 'o', 'n', ':']

/-- Could `text` be the name of an address, rather than an expression? -/
def looksLikeName (text : List Char) : Bool :=
  match text with
  | [] => false
  | first :: rest =>
    (first.isAlpha || first = '_') &&
      rest.all fun c => c.isAlphanum || c = '_' || c = ':' || c = '.' || c = '@'

/-- A whole expression inside brackets: its value and the place of its end. -/
def enclosed (operand : Operand) (skipping : Bool) (inner : Cursor) : Evaluated := do
  let (value, c) ← expression operand skipping inner
  let c ← c.expectEnd
  return (value, c)

/-- `( ... )` -/
def group (operand : Operand) (skipping : Bool) (c : Cursor) : Evaluated :=
  match Cursor.closing? '(' ')' 0 c.rest with
  | none => c.fail (.unmatchedGrouping c.offset)
  | some close => do
    let (value, inner) ← enclosed operand skipping (c.inside close)
    return (value, c.behind close inner)

/-- The word that memory holds at `address`, in as many bytes as `cast` reads. -/
def readWord (scope : Scope) (cast : Cast) (address : UInt32) (c : Cursor) : Evaluated :=
  let unreadable := ExpressionError.memoryUnreadable address cast.readSize
  match scope.memory with
  | none => c.fail unreadable
  | some memory =>
    let after := { c with reads := c.reads + 1 }
    match memory.readAfter c.reads address cast.readSize with
    | .ok bytes => .ok (UInt32.ofNat (ofLittleEndian bytes), after)
    | .error _ => after.fail unreadable

/-- `[ ... ]` where it reads memory. -/
def dereference (scope : Scope) (operand : Operand) (cast : Cast) (skipping : Bool) (c : Cursor) :
    Evaluated :=
  if scope.registers.isNone then c.fail (.dereferenceWithoutRegisters c.offset)
  else
    match Cursor.closing? '[' ']' 0 c.rest with
    | none => c.fail (.unmatchedValueBrackets c.offset)
    | some close => do
      let (address, inner) ← enclosed operand skipping (c.inside close)
      let c := c.behind close inner
      if skipping then return (0, c) else readWord scope cast address c

/-- What brackets make of an address: `<...>` keeps it, `[...]` makes it the
distance from the end of a word at the origin. -/
def embed (scope : Scope) (relative : Bool) (address : UInt32) : UInt32 :=
  if relative then address - (scope.origin + 4) else address

/-- A value that was looked up.  One that is missing is an error only where it
counts. -/
def found (skipping : Bool) (c : Cursor) (error : ExpressionError) :
    Option UInt32 → Except Failure UInt32
  | some value => .ok value
  | none => if skipping then .ok 0 else c.fail error

/-- The name of a code cave that `content` is, without its mark. -/
def caveIn? (content : List Char) : Option (List Char) :=
  match Text.after? Symbols.caveMark content with
  | some name => some name
  | none => Text.after? Symbols.caveAlias content

/-- An expression between brackets that are taken for a name first. -/
def embeddedExpression (scope : Scope) (operand : Operand) (skipping relative : Bool) (c : Cursor)
    (close : Nat) (content : List Char) : Evaluated :=
  match enclosed operand skipping (c.inside close) with
  | .ok (value, inner) => .ok (embed scope relative value, c.behind close inner)
  | .error ⟨.unknownCharacter character offset, reads⟩ =>
    if looksLikeName content then do
      let value ← found skipping c (.symbolNotFound (String.ofList content)) none
      return (embed scope relative value, c.behind close c)
    else .error ⟨.unknownCharacter character offset, reads⟩
  | .error failure => .error failure

/-- `<...>`, and `[...]` where it embeds an address. -/
def embedded (scope : Scope) (operand : Operand) (skipping relative : Bool) (c : Cursor) :
    Evaluated :=
  let brackets := if relative then ('[', ']') else ('<', '>')
  match Cursor.closing? brackets.1 brackets.2 0 c.rest with
  | none => c.fail (.unmatchedValueBrackets c.offset)
  | some close =>
    let content := Text.trim (c.inside close).rest
    let next := c.behind close c
    match caveIn? content with
    | some cave => do
      let name := String.ofList cave
      let address ←
        found skipping c (.caveNotFound name) (scope.symbols.get? (Symbols.caveName name))
      return (embed scope relative address, next)
    | none =>
      match Text.after? optionMark content with
      | some option => do
        let name := String.ofList option
        let value ← found skipping c (.optionNotFound name) ((scope.options.get? name).map (·.word))
        return (value, next)
      | none =>
        match scope.symbols.resolve? scope.memory (String.ofList content) with
        | some address => .ok (embed scope relative address, next)
        | none => embeddedExpression scope operand skipping relative c close content

/-- A register or a literal. -/
def atom (scope : Scope) (c : Cursor) (first : Char) : Evaluated :=
  let register := scope.registers.bind fun registers =>
    (Register.atStart? c.rest).map registers.get
  match register with
  | some value => .ok (value, c.advance Register.nameLength)
  | none =>
    match Literal.atStart? scope.moduleBase c.rest with
    | some (value, length) => .ok (value, c.advance length)
    | none => c.unknown first

/-- An operand without unary operators and casts. -/
def primary (scope : Scope) (operand : Operand) (skipping : Bool) (c : Cursor) : Evaluated :=
  match c.peek? with
  | none => c.fail (.unexpectedEnd c.offset)
  | some '(' => group operand skipping c
  | some '[' =>
    if scope.registers.isSome then dereference scope operand .u32 skipping c
    else embedded scope operand skipping true c
  | some '<' => embedded scope operand skipping false c
  | some first => atom scope c first

/-- A unary operator applied to what follows it. -/
def applied (operand : Operand) (f : UInt32 → UInt32) (skipping : Bool) (c : Cursor) :
    Evaluated := do
  let (value, c) ← operand skipping (c.advance 1)
  return (f value, c)

/-- An operand with at least one level left, blanks before it skipped. -/
def operandAt (scope : Scope) (operand : Operand) (skipping : Bool) (c : Cursor) : Evaluated :=
  match Cast.atStart? c.rest with
  | some (cast, length) => do
    let c := (c.advance length).skipSpace
    let (raw, c) ← if c.peek? = some '[' then dereference scope operand cast skipping c
      else operand skipping c
    return (cast.convert raw, c)
  | none =>
    match c.peek? with
    | some '!' => applied operand (fun v => truth (v == 0)) skipping c
    | some '~' => applied operand (fun v => ~~~v) skipping c
    | some '-' => applied operand (fun v => 0 - v) skipping c
    | some '+' => applied operand id skipping c
    | _ => primary scope operand skipping c

/-- An operand that takes at most so many levels. -/
def operand (scope : Scope) : Nat → Operand
  | 0 => fun _ c => c.fail (.nestingTooDeep c.offset)
  | levels + 1 => fun skipping c => operandAt scope (operand scope levels) skipping c.skipSpace

end CodePatch.Expression
