/-
# Where evaluation stands

An expression is evaluated while it is read, from left to right, and `Cursor`
is the place reached: the text still to be read, the offset of its start, and
the number of times memory was read so far.  The text ends where the current
pair of brackets closes, so nothing inside a pair can read past it.

Offsets count bytes of UTF-8.  A cursor only ever stands between characters.
-/
import CodePatch.Error
import CodePatch.Text.Encoding

namespace CodePatch

/-- A place in the text of an expression. -/
structure Cursor where
  offset : Nat
  rest : List Char
  reads : Nat := 0
deriving DecidableEq, Repr

/-- Why evaluation failed, and how often it had read memory. -/
structure Failure where
  error : ExpressionError
  reads : Nat
deriving DecidableEq, Repr

/-- A value and the place behind it. -/
abbrev Evaluated := Except Failure (UInt32 × Cursor)

namespace Cursor

/-- The blanks that may stand between tokens. -/
def isSpace (c : Char) : Bool :=
  c = ' ' || c = '\t' || c = '\r' || c = '\n'

def peek? (c : Cursor) : Option Char :=
  c.rest.head?

/-- The place `count` characters on. -/
def advance (c : Cursor) (count : Nat) : Cursor :=
  { c with offset := c.offset + Text.utf8Size (c.rest.take count), rest := c.rest.drop count }

def skipSpace (c : Cursor) : Cursor :=
  c.advance (c.rest.takeWhile isSpace).length

def fail {α : Type} (c : Cursor) (error : ExpressionError) : Except Failure α :=
  .error ⟨error, c.reads⟩

/-- The failure that `character` has no place here. -/
def unknown {α : Type} (c : Cursor) (character : Char) : Except Failure α :=
  c.fail (.unknownCharacter character c.offset)

/-- The place of the end of the text, if only blanks are left before it. -/
def expectEnd (c : Cursor) : Except Failure Cursor :=
  let c := c.skipSpace
  match c.peek? with
  | none => .ok c
  | some character =>
    if character = '(' || character = ')' then c.fail (.unmatchedGrouping c.offset)
    else if character = '[' || character = ']' || character = '<' || character = '>' then
      c.fail (.unmatchedValueBrackets c.offset)
    else c.unknown character

/-- The index of the bracket that closes the first one of `text`; `depth` are
open before it.  Other kinds of brackets do not count. -/
def closing? (opens closes : Char) : Nat → List Char → Option Nat
  | _, [] => none
  | depth, c :: rest =>
    if c = opens then (closing? opens closes (depth + 1) rest).map (· + 1)
    else if c = closes then
      if depth ≤ 1 then some 0 else (closing? opens closes (depth - 1) rest).map (· + 1)
    else (closing? opens closes depth rest).map (· + 1)

/-- The place inside a pair of brackets that opens here and closes `close`
characters on, with the text up to there. -/
def inside (c : Cursor) (close : Nat) : Cursor :=
  let inner := c.advance 1
  { inner with rest := inner.rest.take (close - 1) }

/-- The place behind that pair, once what is inside has been read. -/
def behind (c : Cursor) (close : Nat) (inner : Cursor) : Cursor :=
  { c.advance (close + 1) with reads := inner.reads }

end Cursor
end CodePatch
