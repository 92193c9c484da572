/-
# Trees as text

A tree is printed with one blank between tokens, and in brackets where its
operator does not bind strongly enough for the place it stands in.  The levels
are those of the documentation,

    unary 14, * / % 13, + - 12, shifts 11, < <= > >= 10, == != 9, & 8, ^ 7,
    | 6, && 5, || 4, ternary and ?: 3, assignments 2, comma 1

and levels 2 and 3 group to the right, the others to the left.  They are written
out here and not taken from the evaluator, whose own table is then one of the
things to be shown right (`Operator.precedence_eq_level`).
-/
import CodePatch.Proofs.Expression.Tree
import CodePatch.Expression.Cursor

namespace CodePatch

def BinaryOp.spelling : BinaryOp → List Char
  | .mul => ['*']
  | .div => ['/']
  | .mod => ['%']
  | .add => ['+']
  | .sub => ['-']
  | .shiftLeft => ['<', '<']
  | .shiftRight => ['>', '>']
  | .shiftRightSigned => ['>', '>', '>']
  | .less => ['<']
  | .lessEqual => ['<', '=']
  | .greater => ['>']
  | .greaterEqual => ['>', '=']
  | .equal => ['=', '=']
  | .notEqual => ['!', '=']
  | .bitAnd => ['&']
  | .bitXor => ['^']
  | .bitOr => ['|']
  | .logicalAnd => ['&', '&']
  | .logicalOr => ['|', '|']

def BinaryOp.level : BinaryOp → Nat
  | .mul | .div | .mod => 13
  | .add | .sub => 12
  | .shiftLeft | .shiftRight | .shiftRightSigned => 11
  | .less | .lessEqual | .greater | .greaterEqual => 10
  | .equal | .notEqual => 9
  | .bitAnd => 8
  | .bitXor => 7
  | .bitOr => 6
  | .logicalAnd => 5
  | .logicalOr => 4

namespace Operator

def spelling : Operator → List Char
  | .binary op => op.spelling
  | .ternary => ['?']
  | .orElse => ['?', ':']
  | .assign none => ['=']
  | .assign (some op) => op.spelling ++ ['=']
  | .increment => ['+', '+']
  | .comma => [',']

def level : Operator → Nat
  | .binary op => op.level
  | .ternary | .orElse => 3
  | .assign _ => 2
  | .comma => 1
  | .increment => 14

/-- Can the operator stand in a printed tree? -/
def isPrinted (op : Operator) : Bool :=
  op.takesTwo || op = .ternary

theorem isPrinted_of_takesTwo {op : Operator} (h : op.takesTwo = true) : op.isPrinted = true := by
  rw [isPrinted, h, Bool.true_or]

/-- The evaluator's table of precedences is the documented one. -/
theorem precedence_eq_level (op : Operator) : op.precedence = op.level := by
  cases op with
  | binary op => cases op <;> rfl
  | _ => rfl

theorem level_pos (op : Operator) : 1 ≤ op.level := by
  cases op with
  | binary op => cases op <;> decide
  | assign compound => exact (by decide : 1 ≤ 2)
  | _ => decide

theorem level_lt {op : Operator} (h : op.isPrinted = true) : op.level < 14 := by
  cases op with
  | binary op => cases op <;> decide
  | assign compound => exact (by decide : 2 < 14)
  | increment => cases h
  | _ => decide

end Operator

namespace Expression

/-- The level that a left operand must have to stand without brackets. -/
def leftLevel (level : Nat) : Nat :=
  if level = 2 ∨ level = 3 then level + 1 else level

/-- The level that a right operand must have to stand without brackets. -/
def rightLevel (level : Nat) : Nat :=
  if level = 2 ∨ level = 3 then level else level + 1

def UnaryOp.sign : UnaryOp → Char
  | .not => '!'
  | .complement => '~'
  | .negate => '-'
  | .plus => '+'

namespace IntegerType

def name : IntegerType → List Char
  | .i8 => ['i', '8']
  | .u8 => ['u', '8']
  | .i16 => ['i', '1', '6']
  | .u16 => ['u', '1', '6']
  | .i32 => ['i', '3', '2']
  | .u32 => ['u', '3', '2']

/-- The cast to the type. -/
def token (type : IntegerType) : List Char :=
  '(' :: (type.name ++ [')'])

end IntegerType

/-- The text in brackets, if it needs them. -/
def bracketed (needed : Bool) (text : List Char) : List Char :=
  if needed then ['(', ' '] ++ text ++ [' ', ')'] else text

namespace Tree

/-- How strongly the outermost operator binds. -/
def level : Tree → Nat
  | literal _ | unary _ _ | cast _ _ => 14
  | joined op _ _ _ => op.level
  | ternary _ _ _ => 3

/-- The tree as text. -/
def print : Tree → List Char
  | literal v => Nat.toDigits 10 v.toNat
  | unary op t => op.sign :: ' ' :: bracketed (t.level < 14) t.print
  | cast type t => type.token ++ ' ' :: bracketed (t.level < 14) t.print
  | joined op _ l r =>
    bracketed (l.level < leftLevel op.level) l.print ++
      ' ' :: (op.spelling ++ ' ' :: bracketed (r.level < rightLevel op.level) r.print)
  | ternary c x y =>
    bracketed (c.level < leftLevel 3) c.print ++
      ' ' :: '?' :: ' ' :: (x.print ++
        ' ' :: ':' :: ' ' :: bracketed (y.level < rightLevel 3) y.print)

/-- How deeply unary operators and brackets are nested in that text. -/
def nesting : Tree → Nat
  | literal _ => 0
  | unary _ t | cast _ t => 1 + ((decide (t.level < 14)).toNat + t.nesting)
  | joined op _ l r =>
    max ((decide (l.level < leftLevel op.level)).toNat + l.nesting)
      ((decide (r.level < rightLevel op.level)).toNat + r.nesting)
  | ternary c x y =>
    max ((decide (c.level < leftLevel 3)).toNat + c.nesting)
      (max x.nesting ((decide (y.level < rightLevel 3)).toNat + y.nesting))

/-- The text of a tree in a place of the given level. -/
def printAt (t : Tree) (least : Nat) : List Char :=
  bracketed (t.level < least) t.print

def nestingAt (t : Tree) (least : Nat) : Nat :=
  (decide (t.level < least)).toNat + t.nesting

theorem level_pos (t : Tree) : 1 ≤ t.level := by
  cases t with
  | joined op two l r => exact op.level_pos
  | _ => exact Nat.le_add_left 1 _

theorem print_cast (type : IntegerType) (t : Tree) :
    (cast type t).print = type.token ++ ' ' :: t.printAt 14 := rfl

theorem print_joined (op : Operator) (two : op.takesTwo = true) (l r : Tree) :
    (joined op two l r).print = l.printAt (leftLevel op.level) ++
      ' ' :: (op.spelling ++ ' ' :: r.printAt (rightLevel op.level)) := rfl

theorem print_ternary (c x y : Tree) :
    (ternary c x y).print = c.printAt 4 ++
      ' ' :: '?' :: ' ' :: (x.print ++ ' ' :: ':' :: ' ' :: y.printAt 3) := rfl

theorem printAt_of_le {t : Tree} {least : Nat} (h : least ≤ t.level) :
    t.printAt least = t.print := by
  rw [printAt, decide_eq_false (Nat.not_lt.mpr h)]
  rfl

theorem printAt_of_lt {t : Tree} {least : Nat} (h : t.level < least) :
    t.printAt least = ['(', ' '] ++ t.print ++ [' ', ')'] := by
  rw [printAt, decide_eq_true h]
  rfl

theorem nestingAt_of_le {t : Tree} {least : Nat} (h : least ≤ t.level) :
    t.nestingAt least = t.nesting := by
  rw [nestingAt, decide_eq_false (Nat.not_lt.mpr h), Bool.toNat_false, Nat.zero_add]

theorem nestingAt_of_lt {t : Tree} {least : Nat} (h : t.level < least) :
    t.nestingAt least = 1 + t.nesting := by
  rw [nestingAt, decide_eq_true h, Bool.toNat_true]

end Tree

/-! ## The shape of the text -/

/-- The text is not empty, and starts with neither a blank nor a square bracket. -/
def StartsSolid (text : List Char) : Prop :=
  ∃ first rest, text = first :: rest ∧ Cursor.isSpace first = false ∧ first ≠ '['

theorem StartsSolid.append {text : List Char} (h : StartsSolid text) (tail : List Char) :
    StartsSolid (text ++ tail) := by
  obtain ⟨first, rest, rfl, hfirst⟩ := h
  exact ⟨first, rest ++ tail, rfl, hfirst⟩

theorem StartsSolid.dropWhile {text : List Char} (h : StartsSolid text) :
    text.dropWhile Cursor.isSpace = text := by
  obtain ⟨first, rest, rfl, hblank, hsquare⟩ := h
  rw [List.dropWhile_cons, hblank, if_neg Bool.false_ne_true]

theorem startsSolid_bracketed {text : List Char} (h : StartsSolid text) (needed : Bool) :
    StartsSolid (bracketed needed text) := by
  cases needed with
  | false => exact h
  | true => exact ⟨'(', _, rfl, by decide, by decide⟩

theorem isSpace_of_isDigit {c : Char} (h : c.isDigit = true) : Cursor.isSpace c = false := by
  refine Bool.eq_false_iff.mpr fun hspace => ?_
  simp only [Cursor.isSpace, Bool.or_eq_true, decide_eq_true_eq] at hspace
  rcases hspace with ((rfl | rfl) | rfl) | rfl <;> revert h <;> decide

theorem Tree.startsSolid_print (t : Tree) : StartsSolid t.print := by
  induction t with
  | literal v =>
      rw [print]
      rcases hdigits : Nat.toDigits 10 v.toNat with _ | ⟨first, rest⟩
      · exact absurd hdigits Nat.toDigits_ne_nil
      · have hdigit : first.isDigit = true :=
          Nat.isDigit_of_mem_toDigits (by decide) (by decide) (hdigits ▸ List.mem_cons_self)
        refine ⟨first, rest, rfl, isSpace_of_isDigit hdigit, ?_⟩
        rintro rfl
        cases hdigit
  | unary op t ih => exact ⟨op.sign, _, rfl, by cases op <;> decide, by cases op <;> decide⟩
  | cast type t ih => exact ⟨'(', _, rfl, by decide, by decide⟩
  | joined op two l r ihl ihr => exact (startsSolid_bracketed ihl _).append _
  | ternary c x y ihc ihx ihy => exact (startsSolid_bracketed ihc _).append _

theorem Tree.startsSolid_printAt (t : Tree) (least : Nat) : StartsSolid (t.printAt least) :=
  startsSolid_bracketed t.startsSolid_print _

/-- Brackets that are opened in the text are closed in it: inside a pair, it is
passed over on the way to the bracket that closes the pair. -/
def Balanced (text : List Char) : Prop :=
  ∀ depth rest, 1 ≤ depth → Cursor.closing? '(' ')' depth (text ++ rest) =
    (Cursor.closing? '(' ')' depth rest).map (· + text.length)

theorem balanced_nil : Balanced [] := by
  intro depth rest hdepth
  rw [List.nil_append]
  exact Option.map_id'.symm

theorem Balanced.append {text text' : List Char} (h : Balanced text) (h' : Balanced text') :
    Balanced (text ++ text') := by
  intro depth rest hdepth
  rw [List.append_assoc, h depth _ hdepth, h' depth _ hdepth, Option.map_map,
    List.length_append]
  congr 1
  funext n
  simp only [Function.comp_apply]
  omega

theorem Balanced.cons {text : List Char} (h : Balanced text) {first : Char}
    (hopen : first ≠ '(') (hclose : first ≠ ')') : Balanced (first :: text) := by
  intro depth rest hdepth
  rw [List.cons_append, Cursor.closing?, if_neg hopen, if_neg hclose, h depth rest hdepth,
    Option.map_map]
  rfl

theorem balanced_of_all {text : List Char} (h : text.all (fun c => c != '(' && c != ')') = true) :
    Balanced text := by
  induction text with
  | nil => exact balanced_nil
  | cons first rest ih =>
      rw [List.all_cons, Bool.and_eq_true, Bool.and_eq_true] at h
      exact (ih h.2).cons (bne_iff_ne.mp h.1.1) (bne_iff_ne.mp h.1.2)

theorem Balanced.pair {text : List Char} (h : Balanced text) :
    Balanced ('(' :: (text ++ [')'])) := by
  intro depth rest hdepth
  rw [List.cons_append, Cursor.closing?, if_pos rfl, List.append_assoc,
    h (depth + 1) _ (Nat.le_add_left 1 depth), List.singleton_append, Cursor.closing?,
    if_neg (by decide), if_pos rfl, if_neg (by omega), Nat.add_sub_cancel]
  simp only [Option.map_map]
  congr 1
  funext n
  simp only [Function.comp_apply, List.length_cons, List.length_append, List.length_nil]
  omega

theorem balanced_bracketed {text : List Char} (h : Balanced text) (needed : Bool) :
    Balanced (bracketed needed text) := by
  cases needed with
  | false => exact h
  | true =>
      have hpair : Balanced ('(' :: ([' '] ++ text ++ [' '] ++ [')'])) :=
        (((balanced_of_all rfl).append h).append (balanced_of_all rfl)).pair
      rwa [List.append_assoc] at hpair

theorem balanced_spelling (op : Operator) : Balanced op.spelling := by
  refine balanced_of_all ?_
  cases op with
  | binary op => cases op <;> rfl
  | assign compound =>
      rcases compound with _ | op
      · rfl
      · cases op <;> rfl
  | _ => rfl

theorem Tree.balanced_print (t : Tree) : Balanced t.print := by
  induction t with
  | literal v =>
      refine balanced_of_all (List.all_eq_true.mpr fun c hc => ?_)
      have hdigit : c.isDigit = true := Nat.isDigit_of_mem_toDigits (by decide) (by decide) hc
      rw [Bool.and_eq_true, bne_iff_ne, bne_iff_ne]
      constructor <;> rintro rfl <;> cases hdigit
  | unary op t ih =>
      refine ((balanced_bracketed ih _).cons ?_ ?_).cons ?_ ?_ <;> cases op <;> decide
  | cast type t ih =>
      refine Balanced.append ?_ ((balanced_bracketed ih _).cons (by decide) (by decide))
      exact (balanced_of_all (by cases type <;> rfl)).pair
  | joined op two l r ihl ihr =>
      have hright : Balanced (' ' :: bracketed (r.level < rightLevel op.level) r.print) :=
        (balanced_bracketed ihr _).cons (by decide) (by decide)
      exact (balanced_bracketed ihl _).append
        (((balanced_spelling op).append hright).cons (by decide) (by decide))
  | ternary c x y ihc ihx ihy =>
      have hmark : ∀ text, Balanced text → Balanced (' ' :: '?' :: ' ' :: text) := fun text h =>
        ((h.cons (by decide) (by decide)).cons (by decide) (by decide)).cons (by decide) (by decide)
      have hcolon : ∀ text, Balanced text → Balanced (' ' :: ':' :: ' ' :: text) := fun text h =>
        ((h.cons (by decide) (by decide)).cons (by decide) (by decide)).cons (by decide) (by decide)
      exact (balanced_bracketed ihc _).append
        (hmark _ (ihx.append (hcolon _ (balanced_bracketed ihy _))))

end Expression
end CodePatch
