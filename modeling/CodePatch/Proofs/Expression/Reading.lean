/-
# Printed trees are read back

The evaluator has no tree: it computes while it reads.  Nevertheless it comes to
the value of the tree that was printed, whatever the operators, as long as the
text is not nested more deeply than it reads (`evaluate_print`).

The induction is over the tree.  A tree is printed in two ways, bare and in
brackets, and read in two ways, as an operand and as the start of a longer
expression.  `Runs` says that a text is read as such a start; the bare form of
each tree does (`runs_print`), and what is in brackets is an operand then
(`ReadsOperand.of_runs`).
-/
import CodePatch.Proofs.Expression.Climbing
import CodePatch.Expression.Evaluate

namespace CodePatch.Expression

variable {scope : Scope}

/-! ## What an operand starts with -/

theorem operand_succ (levels : Nat) (skipping : Bool) (c : Cursor) :
    operand scope (levels + 1) skipping c =
      operandAt scope (operand scope levels) skipping c.skipSpace := rfl

theorem operandAt_sign {operand : Operand} {op : UnaryOp} {skipping : Bool} {c : Cursor}
    {rest : List Char} (h : c.rest = op.sign :: rest) :
    operandAt scope operand skipping c = applied operand op.apply skipping c := by
  have hpeek : c.peek? = some op.sign := by rw [Cursor.peek?, h]; rfl
  rw [operandAt, h, Cast.atStart?_sign]
  cases op <;> simp only [hpeek, UnaryOp.sign] <;> rfl

theorem operandAt_group {operand : Operand} {skipping : Bool} {c : Cursor} {rest : List Char}
    (h : c.rest = '(' :: ' ' :: rest) :
    operandAt scope operand skipping c = group operand skipping c := by
  have hpeek : c.peek? = some '(' := by rw [Cursor.peek?, h]; rfl
  rw [operandAt, h, Cast.atStart?_group]
  simp only [hpeek, primary]
  rfl

theorem operandAt_digit {operand : Operand} {skipping : Bool} {c : Cursor} {first : Char}
    {rest : List Char} (h : c.rest = first :: rest) (hdigit : first.isDigit = true) :
    operandAt scope operand skipping c = atom scope c first := by
  have hpeek : c.peek? = some first := by rw [Cursor.peek?, h]; rfl
  rw [operandAt, h, Cast.atStart?_digit hdigit]
  simp only [hpeek]
  split
  · rename_i heq; cases heq; cases hdigit
  · rename_i heq; cases heq; cases hdigit
  · rename_i heq; cases heq; cases hdigit
  · rename_i heq; cases heq; cases hdigit
  · simp only [primary, hpeek]
    split
    · rename_i heq; cases heq
    · rename_i heq; cases heq; cases hdigit
    · rename_i heq; cases heq; cases hdigit
    · rename_i heq; cases heq; cases hdigit
    · rename_i heq; cases heq; rfl

/-- A number is an atom in every scope: no register is spelled with digits. -/
theorem atom_digits {c : Cursor} {first : Char} {n : Nat} {tail : List Char}
    (h : c.rest = Nat.toDigits 10 n ++ tail) (hapart : Literal.Apart tail) :
    atom scope c first = .ok (UInt32.ofNat n, c.advance (Nat.toDigits 10 n).length) := by
  have hregister : Register.atStart? c.rest = none := by
    rw [h]
    rcases hdigits : Nat.toDigits 10 n with _ | ⟨digit, rest⟩
    · exact absurd hdigits Nat.toDigits_ne_nil
    · exact Register.atStart?_digit (Literal.isDigit_of_mem (hdigits ▸ List.mem_cons_self)) _
  have hliteral : Literal.atStart? scope.moduleBase c.rest =
      some (UInt32.ofNat n, (Nat.toDigits 10 n).length) := by
    rw [h]
    exact Literal.atStart?_toDigits scope.moduleBase n hapart
  have hnone : (scope.registers.bind fun registers =>
      (Register.atStart? c.rest).map registers.get) = none := by
    rw [hregister]
    cases scope.registers <;> rfl
  rw [atom, hnone]
  simp only [hliteral]

theorem closing?_pair {text : List Char} (h : Balanced text) (rest : List Char) :
    Cursor.closing? '(' ')' 0 ('(' :: (text ++ ')' :: rest)) = some (text.length + 1) := by
  rw [Cursor.closing?, if_pos rfl, h (0 + 1) _ (Nat.le_refl 1), Cursor.closing?,
    if_neg (by decide), if_pos rfl, if_pos (Nat.le_refl 1)]
  simp only [Option.map_some, Nat.zero_add]

theorem inside_pair {c : Cursor} {opens closes : Char} {text rest : List Char}
    (h : c.rest = opens :: (text ++ closes :: rest)) :
    (c.inside (text.length + 1)).rest = text := by
  rw [Cursor.inside, Cursor.advance, h]
  exact List.take_left

theorem behind_pair {c : Cursor} {opens closes : Char} {text rest : List Char}
    (h : c.rest = opens :: (text ++ closes :: rest)) (inner : Cursor) :
    (c.behind (text.length + 1) inner).rest = rest := by
  have hsplit : c.rest = (opens :: (text ++ [closes])) ++ rest := by
    rw [h]
    simp only [List.cons_append, List.append_assoc, List.nil_append]
  have hlength : text.length + 1 + 1 = (opens :: (text ++ [closes])).length := by
    simp only [List.length_cons, List.length_append, List.length_nil]
  rw [Cursor.behind, Cursor.advance, hsplit, hlength]
  exact List.drop_left

/-! ## Reading a text as an operand, and as the start of an expression -/

/-- The bound on what may follow a tree that was printed in a place of this level. -/
def Tree.bound (t : Tree) (least : Nat) : Nat :=
  if t.level < least then 15 else rightLevel t.level

/-- In a place for an operand, the tree is read and yields its value. -/
def ReadsOperand (scope : Scope) (t : Tree) : Prop :=
  ∀ (levels : Nat) (skipping : Bool) (c : Cursor) (tail : List Char),
    t.nestingAt 14 < levels → Literal.Apart tail → c.skipSpace.rest = t.printAt 14 ++ tail →
      Yields tail skipping t.value (operand scope levels skipping c)

/-- The text is read from its first operand on, as far as it goes, by a climb that
takes operators of level `cap` at least. -/
def Runs (scope : Scope) (text : List Char) (nesting cap bound : Nat) (value : Option Nat) : Prop :=
  ∀ (levels least : Nat) (steps : Cursor → Nat) (skipping : Bool) (c : Cursor) (tail : List Char),
    nesting < levels → least ≤ cap → Follows bound tail → c.skipSpace.rest = text ++ tail →
      (∀ c', c'.rest.length ≤ (text ++ tail).length → c'.rest.length ≤ steps c') →
        Continues (operand scope levels) least tail skipping value
          (operandAndMore (operand scope levels) steps least skipping c)

/-- A bracket or a unary operator takes one of the levels, and leaves enough. -/
theorem exists_level {n levels : Nat} (h : 1 + n < levels) :
    ∃ rest, levels = rest + 1 ∧ n < rest :=
  ⟨levels - 1, by omega, by omega⟩

theorem ReadsOperand.runs {t : Tree} (h : ReadsOperand scope t) (cap bound : Nat) :
    Runs scope (t.printAt 14) (t.nestingAt 14) cap bound t.value := by
  intro levels least steps skipping c tail hnesting hleast hfollows hrest hsteps
  refine (h levels skipping c tail hnesting hfollows.apart hrest).bind ?_ ?_
  · intro v c' hright hstands
    refine .climbing hright hstands (hsteps c' ?_)
    rw [List.length_append]
    exact Nat.le_trans hstands.length (Nat.le_add_left _ _)
  · intro offset reads hcounts hnone
    exact .failure hcounts hnone

theorem ReadsOperand.runs_print {t : Tree} (h : ReadsOperand scope t) (hlevel : 14 ≤ t.level) :
    Runs scope t.print t.nesting t.level (rightLevel t.level) t.value := by
  rw [← Tree.printAt_of_le hlevel, ← Tree.nestingAt_of_le hlevel]
  exact h.runs t.level (rightLevel t.level)

theorem enclosed_yields {t : Tree}
    (h : Runs scope t.print t.nesting t.level (rightLevel t.level) t.value) {levels : Nat}
    (hnesting : t.nesting < levels) {skipping : Bool} {c : Cursor} {tail : List Char}
    (hrest : c.skipSpace.rest = t.print ++ tail) (hfollows : Follows 0 tail)
    (hblank : tail.dropWhile Cursor.isSpace = []) :
    Yields [] skipping t.value (enclosed (operand scope levels) skipping c) := by
  have hruns : Continues (operand scope levels) 1 tail skipping t.value
      (expression (operand scope levels) skipping c) :=
    h levels 1 (fun c => c.rest.length) skipping c tail hnesting t.level_pos
      (hfollows.mono (Nat.zero_le _)) hrest (fun _ _ => Nat.le_refl _)
  refine (hruns.yields hfollows (Nat.zero_le 1)).bind ?_ ?_
  · intro v c' hright hstands
    have hend : c'.skipSpace.rest = [] := hstands.rest.trans hblank
    have hexpect : c'.expectEnd = .ok c'.skipSpace := by
      simp only [Cursor.expectEnd, Cursor.peek?, hend, List.head?_nil]
    simp only [hexpect]
    exact .value hright (Cursor.stands_of_rest hend)
  · intro offset reads hcounts hnone
    exact .failure hcounts hnone

theorem ReadsOperand.of_runs {t : Tree} (hlevel : t.level < 14)
    (h : Runs scope t.print t.nesting t.level (rightLevel t.level) t.value) :
    ReadsOperand scope t := by
  intro levels skipping c tail hnesting _ hrest
  rw [Tree.nestingAt_of_lt hlevel] at hnesting
  obtain ⟨levels, rfl, hinside⟩ := exists_level hnesting
  have hopen : c.skipSpace.rest = '(' :: ((' ' :: (t.print ++ [' '])) ++ ')' :: tail) := by
    rw [hrest, Tree.printAt_of_lt hlevel]
    simp only [List.append_assoc, List.cons_append, List.nil_append]
  have hbalanced : Balanced (' ' :: (t.print ++ [' '])) :=
    (t.balanced_print.append (balanced_of_all rfl)).cons (by decide) (by decide)
  have hinner : (c.skipSpace.inside ((' ' :: (t.print ++ [' '])).length + 1)).skipSpace.rest =
      t.print ++ [' '] := by
    rw [Cursor.skipSpace_rest, inside_pair hopen]
    exact (t.startsSolid_print.append [' ']).dropWhile
  rw [operand_succ, operandAt_group hopen, group, hopen, closing?_pair hbalanced tail]
  refine (enclosed_yields h hinside hinner .blank rfl).bind ?_ ?_
  · intro v inner hright _
    exact .value hright (Cursor.stands_of_rest (behind_pair hopen inner))
  · intro offset reads hcounts hnone
    exact .failure hcounts hnone

/-- Read both ways, a tree is read in every place that it is printed for. -/
theorem runs_printAt {t : Tree} (hoperand : ReadsOperand scope t)
    (hruns : Runs scope t.print t.nesting t.level (rightLevel t.level) t.value) {least : Nat}
    (hleast : least ≤ 14) :
    Runs scope (t.printAt least) (t.nestingAt least) least (t.bound least) t.value := by
  by_cases hlevel : t.level < least
  · have hlevel' : t.level < 14 := Nat.lt_of_lt_of_le hlevel hleast
    rw [Tree.printAt_of_lt hlevel, Tree.nestingAt_of_lt hlevel, ← Tree.printAt_of_lt hlevel',
      ← Tree.nestingAt_of_lt hlevel']
    exact hoperand.runs least (t.bound least)
  · have hle : least ≤ t.level := Nat.not_lt.mp hlevel
    rw [Tree.printAt_of_le hle, Tree.nestingAt_of_le hle, Tree.bound, if_neg hlevel]
    intro levels least' steps skipping c tail hnesting hleast'
    exact hruns levels least' steps skipping c tail hnesting (Nat.le_trans hleast' hle)

/-- Where everything that follows binds more weakly, the text is read to its end. -/
theorem Runs.yields {text tail : List Char} {nesting least bound levels steps : Nat}
    {value : Option Nat} {skipping : Bool} {c : Cursor}
    (h : Runs scope text nesting least bound value) (hbound : least ≤ bound)
    (hnesting : nesting < levels) (hfollows : Follows least tail)
    (hrest : c.skipSpace.rest = text ++ tail) (hsteps : (text ++ tail).length ≤ steps) :
    Yields tail skipping value
      (operandAndMore (operand scope levels) (fun _ => steps) least skipping c) :=
  (h levels least (fun _ => steps) skipping c tail hnesting (Nat.le_refl least)
    (hfollows.mono hbound) hrest fun _ hle => Nat.le_trans hle hsteps).yields hfollows
    (Nat.le_refl least)

theorem le_bound (t : Tree) {least : Nat} (h : least ≤ 14) : least ≤ t.bound least := by
  unfold Tree.bound rightLevel
  repeat' split
  all_goals omega

theorem lt_bound (t : Tree) {level : Nat} (h : level < 14) :
    level < t.bound (leftLevel level) := by
  unfold Tree.bound rightLevel leftLevel
  repeat' split
  all_goals omega

theorem le_leftLevel (level : Nat) : level ≤ leftLevel level := by
  unfold leftLevel
  split <;> omega

theorem leftLevel_le {level : Nat} (h : level < 14) : leftLevel level ≤ 14 := by
  unfold leftLevel
  split <;> omega

theorem rightLevel_le {level : Nat} (h : level < 14) : rightLevel level ≤ 14 := by
  unfold rightLevel
  split <;> omega

theorem nestingAt_lt_of_joined {op : Operator} {two : op.takesTwo = true} {l r : Tree}
    {levels : Nat} (h : (Tree.joined op two l r).nesting < levels) :
    l.nestingAt (leftLevel op.level) < levels ∧ r.nestingAt (rightLevel op.level) < levels :=
  Nat.max_lt.mp h

theorem nestingAt_lt_of_ternary {condition taken other : Tree} {levels : Nat}
    (h : (Tree.ternary condition taken other).nesting < levels) :
    condition.nestingAt 4 < levels ∧ taken.nestingAt 1 < levels ∧ other.nestingAt 3 < levels := by
  obtain ⟨hcondition, hrest⟩ := Nat.max_lt.mp h
  obtain ⟨htaken, hother⟩ := Nat.max_lt.mp hrest
  rw [Tree.nestingAt_of_le taken.level_pos]
  exact ⟨hcondition, htaken, hother⟩

/-! ## One form of tree after another -/

theorem readsOperand_literal (v : UInt32) : ReadsOperand scope (.literal v) := by
  intro levels skipping c tail hnesting hapart hrest
  obtain ⟨levels, rfl⟩ : ∃ n, levels = n + 1 := ⟨levels - 1, by omega⟩
  have hrest' : c.skipSpace.rest = Nat.toDigits 10 v.toNat ++ tail := hrest
  have hatom : ∀ first, atom scope c.skipSpace first =
      .ok (UInt32.ofNat v.toNat, c.skipSpace.advance (Nat.toDigits 10 v.toNat).length) :=
    fun _ => atom_digits hrest' hapart
  rcases hdigits : Nat.toDigits 10 v.toNat with _ | ⟨first, rest⟩
  · exact absurd hdigits Nat.toDigits_ne_nil
  · have hfirst : c.skipSpace.rest = first :: (rest ++ tail) := by rw [hrest', hdigits]; rfl
    have hdigit : first.isDigit = true := Literal.isDigit_of_mem (hdigits ▸ List.mem_cons_self)
    rw [operand_succ, operandAt_digit hfirst hdigit, hatom, UInt32.ofNat_toNat]
    refine .value (fun _ => rfl) (Cursor.stands_of_rest ?_)
    rw [Cursor.advance, hrest']
    exact List.drop_left

theorem readsOperand_unary (op : UnaryOp) {t : Tree} (h : ReadsOperand scope t) :
    ReadsOperand scope (.unary op t) := by
  intro levels skipping c tail hnesting hapart hrest
  rw [Tree.nestingAt_of_le (Nat.le_refl 14)] at hnesting
  obtain ⟨levels, rfl, hinside⟩ := exists_level hnesting
  have hsign : c.skipSpace.rest = op.sign :: ' ' :: (t.printAt 14 ++ tail) := hrest
  have hsign' : c.skipSpace.rest = [op.sign] ++ ' ' :: (t.printAt 14 ++ tail) := hsign
  have hnext : (c.skipSpace.advance 1).skipSpace.rest = t.printAt 14 ++ tail :=
    Cursor.skipSpace_advance_of_solid hsign' ((t.startsSolid_printAt 14).append tail)
  rw [operand_succ, operandAt_sign hsign, applied]
  refine (h levels skipping _ tail hinside hapart hnext).bind ?_ ?_
  · intro v c' hright hstands
    refine .value (fun hcounts => ?_) hstands
    rw [Tree.value, hright hcounts, Option.map_some, op.toNat_apply]
  · intro offset reads hcounts hnone
    refine .failure hcounts ?_
    rw [Tree.value, hnone, Option.map_none]

theorem readsOperand_cast (type : IntegerType) {t : Tree} (h : ReadsOperand scope t) :
    ReadsOperand scope (.cast type t) := by
  intro levels skipping c tail hnesting hapart hrest
  rw [Tree.nestingAt_of_le (Nat.le_refl 14)] at hnesting
  obtain ⟨levels, rfl, hinside⟩ := exists_level hnesting
  have htoken : c.skipSpace.rest = type.token ++ ' ' :: (t.printAt 14 ++ tail) := by
    rw [hrest, Tree.printAt_of_le (Nat.le_refl 14), Tree.print_cast, List.append_assoc]
    rfl
  have hsolid : StartsSolid (t.printAt 14 ++ tail) := (t.startsSolid_printAt 14).append tail
  have hnext : (c.skipSpace.advance type.token.length).skipSpace.rest = t.printAt 14 ++ tail :=
    Cursor.skipSpace_advance_of_solid htoken hsolid
  have hskip : (c.skipSpace.advance type.token.length).skipSpace.skipSpace.rest =
      t.printAt 14 ++ tail := by
    rw [Cursor.skipSpace_rest, hnext, hsolid.dropWhile]
  have hpeek : (c.skipSpace.advance type.token.length).skipSpace.peek? ≠ some '[' := by
    obtain ⟨first, rest, heq, -, hsquare⟩ := hsolid
    rw [Cursor.peek?, hnext, heq]
    exact fun hfirst => hsquare (Option.some.inj hfirst)
  have hcast : Cast.atStart? c.skipSpace.rest = some (type.toCast, type.token.length) := by
    rw [htoken]
    exact Cast.atStart?_token type _
  rw [operand_succ, operandAt, hcast]
  simp only [if_neg hpeek]
  refine (h levels skipping _ tail hinside hapart hskip).bind ?_ ?_
  · intro v c' hright hstands
    refine .value (fun hcounts => ?_) hstands
    rw [Tree.value, hright hcounts, Option.map_some, type.toNat_convert]
  · intro offset reads hcounts hnone
    refine .failure hcounts ?_
    rw [Tree.value, hnone, Option.map_none]

theorem exists_steps {c : Cursor} {token text : List Char} {steps : Nat}
    (hrest : c.skipSpace.rest = token ++ ' ' :: text) (hsteps : c.rest.length ≤ steps) :
    ∃ n, steps = n + 1 ∧ text.length ≤ n := by
  have hlength := c.length_skipSpace_le
  rw [hrest, List.length_append, List.length_cons] at hlength
  exact ⟨steps - 1, by omega, by omega⟩

section Joined
variable {op : Operator} (two : op.takesTwo = true) {l r : Tree}
include two

theorem continues_joined {left : Option Nat} {levels least steps : Nat} {skipping : Bool}
    {lhs : UInt32} {c : Cursor} {tail : List Char}
    (hr : Runs scope (r.printAt (rightLevel op.level)) (r.nestingAt (rightLevel op.level))
      (rightLevel op.level) (r.bound (rightLevel op.level)) r.value)
    (hnesting : r.nestingAt (rightLevel op.level) < levels) (hleast : least ≤ op.level)
    (hfollows : Follows (rightLevel op.level) tail)
    (hlhs : skipping = false → left = some lhs.toNat)
    (hstands : c.Stands (' ' :: (op.spelling ++ ' ' :: (r.printAt (rightLevel op.level) ++ tail))))
    (henough : c.rest.length ≤ steps) :
    Continues (operand scope levels) least tail skipping (op.meaning left r.value)
      (climb (operand scope levels) steps least skipping lhs c) := by
  have hprinted : op.isPrinted = true := Operator.isPrinted_of_takesTwo two
  have hop : c.skipSpace.rest = op.spelling ++ ' ' :: (r.printAt (rightLevel op.level) ++ tail) :=
    hstands.rest_of_solid (op.startsSolid_spelling.append _)
  obtain ⟨n, rfl, hn⟩ := exists_steps hop henough
  have hnext := Cursor.skipSpace_advance_of_solid hop ((r.startsSolid_printAt _).append tail)
  rw [climb_joined _ two (hop ▸ Operator.atStart?_spelling hprinted _) hleast]
  refine (hr.yields (le_bound r (rightLevel_le (op.level_lt hprinted))) hnesting hfollows hnext
    hn).bind ?_ ?_
  · intro rhs after hrhs hstands'
    rcases op.finish_cases hlhs hrhs after c.skipSpace.offset with
      ⟨v, hv, hvalue⟩ | ⟨hcounts, hnone, herror⟩
    · simp only [hv]
      refine .climbing hvalue hstands' (Nat.le_trans hstands'.length ?_)
      rw [List.length_append] at hn
      exact Nat.le_trans (Nat.le_add_left _ _) hn
    · simp only [herror]
      exact .failure hcounts hnone
  · intro offset reads hcounts hnone
    obtain ⟨hskipping, hundecided⟩ := Operator.skips_eq_false_iff.mp hcounts
    refine .failure hskipping ?_
    rw [hlhs hskipping, Operator.meaning_of_undecided hundecided, hnone, Option.bind_none]

theorem runs_joined
    (hl : Runs scope (l.printAt (leftLevel op.level)) (l.nestingAt (leftLevel op.level))
      (leftLevel op.level) (l.bound (leftLevel op.level)) l.value)
    (hr : Runs scope (r.printAt (rightLevel op.level)) (r.nestingAt (rightLevel op.level))
      (rightLevel op.level) (r.bound (rightLevel op.level)) r.value) :
    Runs scope (Tree.joined op two l r).print (Tree.joined op two l r).nesting op.level
      (rightLevel op.level) (Tree.joined op two l r).value := by
  intro levels least steps skipping c tail hnesting hleast hfollows hrest hsteps
  have hprinted : op.isPrinted = true := Operator.isPrinted_of_takesTwo two
  obtain ⟨hnestl, hnestr⟩ := nestingAt_lt_of_joined hnesting
  rw [Tree.print_joined, List.append_assoc, List.cons_append, List.append_assoc,
    List.cons_append] at hrest hsteps
  -- The left operand is the start of the text, and the operator may follow it.
  refine (hl levels least steps skipping c _ hnestl (Nat.le_trans hleast (le_leftLevel _))
    (.operator hprinted (lt_bound l (op.level_lt hprinted)) _) hrest hsteps).extend ?_ ?_
  · intro lhs c' steps' hlhs hstands henough
    exact continues_joined two hr hnestr hleast hfollows hlhs hstands henough
  · intro offset reads hcounts hnone
    refine .failure hcounts ?_
    rw [Tree.value, hnone, Operator.meaning_none]

end Joined

theorem expectColon_of_stands {c : Cursor} {rest : List Char}
    (h : c.Stands (' ' :: ':' :: ' ' :: rest)) :
    ∃ c', expectColon c = .ok c' ∧ c'.rest = ' ' :: rest := by
  have hcolon : c.skipSpace.rest = ':' :: ' ' :: rest := h.rest
  refine ⟨c.skipSpace.advance 1, ?_, ?_⟩
  · simp only [expectColon, Cursor.peek?, hcolon, List.head?_cons]
  · rw [Cursor.advance, hcolon]
    rfl

theorem value_ternary_of_ne {condition taken other : Tree} {lhs : UInt32}
    (h : condition.value = some lhs.toNat) (hne : lhs ≠ 0) :
    (Tree.ternary condition taken other).value = taken.value := by
  have hne' : lhs.toNat ≠ 0 := fun hzero => hne (UInt32.toNat_inj.mp hzero)
  rw [Tree.value, h, Option.bind_some, if_pos hne']

theorem value_ternary_of_zero {condition taken other : Tree}
    (h : condition.value = some (0 : UInt32).toNat) :
    (Tree.ternary condition taken other).value = other.value := by
  rw [Tree.value, h, Option.bind_some, if_neg (fun hne => hne rfl)]

theorem value_ternary_chosen {condition taken other : Tree} {skipping : Bool} {lhs v w : UInt32}
    (hlhs : skipping = false → condition.value = some lhs.toNat)
    (hv : (skipping || lhs == 0) = false → taken.value = some v.toNat)
    (hw : (skipping || lhs != 0) = false → other.value = some w.toNat) :
    skipping = false →
      (Tree.ternary condition taken other).value = some (if lhs != 0 then v else w).toNat := by
  rintro rfl
  by_cases hzero : lhs = 0
  · subst hzero
    rw [value_ternary_of_zero (hlhs rfl), hw rfl]
    rfl
  · rw [value_ternary_of_ne (hlhs rfl) hzero, hv (beq_false_of_ne hzero),
      if_pos (bne_iff_ne.mpr hzero)]

section Ternary
variable {condition taken other : Tree}
  (hx : Runs scope (taken.printAt 1) (taken.nestingAt 1) 1 (taken.bound 1) taken.value)
  (hy : Runs scope (other.printAt 3) (other.nestingAt 3) 3 (other.bound 3) other.value)
include hx hy

/-- The climb takes a question mark and both branches, and goes on with the value
of the one that counts. -/
theorem continues_ternary {levels least steps : Nat} {skipping : Bool} {lhs : UInt32}
    {c : Cursor} {tail : List Char} (hnestx : taken.nestingAt 1 < levels)
    (hnesty : other.nestingAt 3 < levels) (hleast : least ≤ 3) (hfollows : Follows 3 tail)
    (hlhs : skipping = false → condition.value = some lhs.toNat)
    (hstands : c.Stands (' ' :: '?' :: ' ' ::
      (taken.printAt 1 ++ ' ' :: ':' :: ' ' :: (other.printAt 3 ++ tail))))
    (henough : c.rest.length ≤ steps) :
    Continues (operand scope levels) least tail skipping
      (Tree.ternary condition taken other).value
      (climb (operand scope levels) steps least skipping lhs c) := by
  have hop : c.skipSpace.rest = ['?'] ++ ' ' ::
      (taken.printAt 1 ++ ' ' :: ':' :: ' ' :: (other.printAt 3 ++ tail)) := hstands.rest
  obtain ⟨n, rfl, hn⟩ := exists_steps hop henough
  have hnext := Cursor.skipSpace_advance_of_solid hop ((taken.startsSolid_printAt 1).append _)
  rw [climb_ternary _ (hop ▸ @Operator.atStart?_spelling .ternary rfl _) hleast]
  refine (hx.yields (le_bound taken (by decide)) hnestx (.colon _) hnext hn).bind ?_ ?_
  · intro v c' hv hstands'
    obtain ⟨behind, hcolon, hbehind⟩ := expectColon_of_stands hstands'
    have hnext' : behind.skipSpace.rest = other.printAt 3 ++ tail := by
      rw [Cursor.skipSpace_rest, hbehind]
      exact ((other.startsSolid_printAt 3).append tail).dropWhile
    have hn' : (other.printAt 3 ++ tail).length ≤ n := by
      refine Nat.le_trans ?_ hn
      simp only [List.length_append, List.length_cons]
      omega
    simp only [hcolon]
    refine (hy.yields (le_bound other (by decide)) hnesty hfollows hnext' hn').bind ?_ ?_
    · intro w after hw hstands''
      refine .climbing (value_ternary_chosen hlhs hv hw) hstands''
        (Nat.le_trans hstands''.length ?_)
      rw [List.length_append] at hn'
      exact Nat.le_trans (Nat.le_add_left _ _) hn'
    · intro offset reads hcounts hnone
      obtain ⟨hskipping, hzero⟩ := Bool.or_eq_false_iff.mp hcounts
      refine .failure hskipping ?_
      have hlhs' : lhs = 0 := by simpa using hzero
      rw [value_ternary_of_zero (hlhs' ▸ hlhs hskipping), hnone]
  · intro offset reads hcounts hnone
    obtain ⟨hskipping, hne⟩ := Bool.or_eq_false_iff.mp hcounts
    refine .failure hskipping ?_
    rw [value_ternary_of_ne (hlhs hskipping) (ne_of_beq_false hne), hnone]

theorem runs_ternary
    (hc : Runs scope (condition.printAt 4) (condition.nestingAt 4) 4 (condition.bound 4)
      condition.value) :
    Runs scope (Tree.ternary condition taken other).print
      (Tree.ternary condition taken other).nesting 3 3
      (Tree.ternary condition taken other).value := by
  intro levels least steps skipping c tail hnesting hleast hfollows hrest hsteps
  obtain ⟨hnestc, hnestx, hnesty⟩ := nestingAt_lt_of_ternary hnesting
  rw [Tree.print_ternary, ← Tree.printAt_of_le taken.level_pos] at hrest hsteps
  simp only [List.append_assoc, List.cons_append] at hrest hsteps
  refine (hc levels least steps skipping c _ hnestc (Nat.le_trans hleast (by decide))
    (@Follows.operator _ .ternary rfl (lt_bound condition (by decide)) _) hrest hsteps).extend ?_ ?_
  · intro lhs c' steps' hlhs hstands henough
    exact continues_ternary hx hy hnestx hnesty hleast hfollows hlhs hstands henough
  · intro offset reads hcounts hnone
    refine .failure hcounts ?_
    rw [Tree.value, hnone, Option.bind_none]

end Ternary

/-! ## Every tree -/

/-- The invariant of the induction: in brackets a tree is an operand, and bare it
is the start of an expression. -/
theorem Tree.reads_print (t : Tree) :
    ReadsOperand scope t ∧
      Runs scope t.print t.nesting t.level (rightLevel t.level) t.value := by
  induction t with
  | literal v =>
      have h : ReadsOperand scope (.literal v) := readsOperand_literal v
      exact ⟨h, h.runs_print (Nat.le_refl 14)⟩
  | unary op t ih =>
      have h : ReadsOperand scope (.unary op t) := readsOperand_unary op ih.1
      exact ⟨h, h.runs_print (Nat.le_refl 14)⟩
  | cast type t ih =>
      have h : ReadsOperand scope (.cast type t) := readsOperand_cast type ih.1
      exact ⟨h, h.runs_print (Nat.le_refl 14)⟩
  | joined op two l r ihl ihr =>
      have hlevel : op.level < 14 := op.level_lt (Operator.isPrinted_of_takesTwo two)
      have h := runs_joined two (runs_printAt ihl.1 ihl.2 (leftLevel_le hlevel))
        (runs_printAt ihr.1 ihr.2 (rightLevel_le hlevel))
      exact ⟨.of_runs hlevel h, h⟩
  | ternary c x y ihc ihx ihy =>
      have h := runs_ternary (runs_printAt ihx.1 ihx.2 (by decide))
        (runs_printAt ihy.1 ihy.2 (by decide)) (runs_printAt ihc.1 ihc.2 (by decide))
      have hlevel : (Tree.ternary c x y).level < 14 := (by decide : 3 < 14)
      exact ⟨.of_runs hlevel h, h⟩

theorem Yields.outcome {tail : List Char} {value : Option Nat} {r : Evaluated}
    (h : Yields tail false value r) :
    (∃ v c, r = .ok (v, c) ∧ value = some v.toNat) ∨
    (∃ offset reads, r = .error ⟨.divisionByZero offset, reads⟩ ∧ value = none) := by
  cases h with
  | @value v c hright hstands => exact Or.inl ⟨v, c, rfl, hright rfl⟩
  | @failure offset reads hcounts hnone => exact Or.inr ⟨offset, reads, rfl, hnone⟩

/-- The evaluator agrees with the trees.  On a printed tree that is not nested too
deeply it returns the value of the tree; it reports a division by zero exactly
if a part that counts divides by zero; and it fails in no other way. -/
theorem evaluate_print (scope : Scope) (t : Tree) (h : t.nesting < nestingLimit) :
    (∀ v : UInt32, (∃ cursor, evaluate scope t.print none = .ok ⟨v, cursor⟩) ↔
      t.value = some v.toNat) ∧
    ((∃ offset, evaluate scope t.print none = .error (.divisionByZero offset)) ↔
      ∃ s, t.Demands s ∧ s.DividesByZero) ∧
    (∀ e, evaluate scope t.print none = .error e → ∃ offset, e = .divisionByZero offset) := by
  have hrest : (⟨0, t.print, 0⟩ : Cursor).skipSpace.rest = t.print ++ [] := by
    rw [Cursor.skipSpace_rest, List.append_nil]
    exact t.startsSolid_print.dropWhile
  have hrun : Yields [] false t.value (run scope t.print) :=
    enclosed_yields t.reads_print.2 h hrest .nothing rfl
  rw [← Tree.value_eq_none_iff]
  rcases hrun.outcome with ⟨v, c, hok, hvalue⟩ | ⟨offset, reads, herror, hnone⟩
  · have heval : evaluate scope t.print none = .ok ⟨v, c.offset⟩ := by
      simp only [evaluate, evaluateCounting, window, hok]
    rw [heval, hvalue]
    refine ⟨fun w => ⟨?_, ?_⟩, ⟨nofun, nofun⟩, nofun⟩
    · rintro ⟨cursor, hw⟩
      cases hw
      rfl
    · intro hw
      exact ⟨c.offset, by rw [UInt32.toNat_inj.mp (Option.some.inj hw)]⟩
  · have heval : evaluate scope t.print none = .error (.divisionByZero offset) := by
      simp only [evaluate, evaluateCounting, window, herror]
    rw [heval, hnone]
    refine ⟨fun w => ⟨nofun, nofun⟩, ⟨fun _ => rfl, fun _ => ⟨offset, rfl⟩⟩, ?_⟩
    intro e he
    cases he
    exact ⟨offset, rfl⟩

/-- `0 && 1 / 0 ? 7 : ( 1 + 2 ) * 3 - 2 - 1`, with a division that does not count. -/
def sampleTree : Tree :=
  .ternary
    (.joined (.binary .logicalAnd) rfl (.literal 0)
      (.joined (.binary .div) rfl (.literal 1) (.literal 0)))
    (.literal 7)
    (.joined (.binary .sub) rfl
      (.joined (.binary .sub) rfl
        (.joined (.binary .mul) rfl
          (.joined (.binary .add) rfl (.literal 1) (.literal 2)) (.literal 3))
        (.literal 2))
      (.literal 1))

theorem evaluate_sampleTree :
    sampleTree.print = "0 && 1 / 0 ? 7 : ( 1 + 2 ) * 3 - 2 - 1".toList ∧
      ∃ cursor, evaluate ⟨{}, {}, none, none, 0, 0⟩ sampleTree.print none = .ok ⟨6, cursor⟩ := by
  have hvalue : sampleTree.value = some (6 : UInt32).toNat := by decide
  exact ⟨by decide, ((evaluate_print _ sampleTree (by decide)).1 6).mpr hvalue⟩

end CodePatch.Expression
