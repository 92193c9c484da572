/-
# Reading in step

The reader of a buffer and the evaluator take the same steps.  From a place that
mirrors a cursor they come to the same end (`Meets`): to one value, at a place
and a cursor that mirror each other again, or to one error.  The reader never
crashes and never runs out of steps, and it leaves the limit, the nesting and
what counts as it found them, whether it fails or not.

Here an operand is given that is read in step, and what follows is the climb over
the operators behind it.  The reader has a step for each byte, the evaluator for
each character, and both have enough (`Enough`), since every operand lies further
on in the text (`PassesAll`).

The other program goes through the same parts as the walk over the evaluator does, but it has a
state of its own, so what is shown of two readings by the evaluator does not cover it.
-/
import CodePatch.Proofs.Expression.Mirror
import CodePatch.Proofs.Expression.Walk

namespace CodePatch.Expression.Buffer

open Text (IsAscii encoded asChars utf8Size)

/-! ## One outcome -/

variable {α β γ δ : Type} {text : List Char}

/-- The evaluator and a reader that starts at `start` come to the same end. -/
inductive Meets (text : List Char) (value : α → β) (cursor : α → Cursor) (start : Place) :
    Except Failure α → EStateM.Result Stop Place β → Prop where
  | reached {a : α} {now : Place} (keeps : Keeps start now) (here : Mirrors text now (cursor a)) :
      Meets text value cursor start (.ok a) (.ok (value a) now)
  | failed {failure : Failure} {now : Place} (keeps : Keeps start now)
      (reads : now.reads = failure.reads) :
      Meets text value cursor start (.error failure) (.error (.failed failure.error) now)

variable {value : α → β} {cursor : α → Cursor} {value' : γ → δ} {cursor' : γ → Cursor}
  {start now : Place} {c : Cursor}

theorem Meets.after {r : Except Failure α} {x : EStateM.Result Stop Place β}
    (h : Meets text value cursor now r x) (hkeeps : Keeps start now) :
    Meets text value cursor start r x := by
  cases h with
  | reached keeps here => exact .reached (hkeeps.trans keeps) here
  | failed keeps reads => exact .failed (hkeeps.trans keeps) reads

theorem Meets.bind {r : Except Failure α} {read : Reader β} {f : α → Except Failure γ}
    {g : β → Reader δ} (h : Meets text value cursor start r (read start))
    (hnext : ∀ a now, r = .ok a → Keeps start now → Mirrors text now (cursor a) →
      Meets text value' cursor' now (f a) (g (value a) now)) :
    Meets text value' cursor' start (r >>= f) ((read >>= g) start) := by
  generalize hread : read start = x at h
  cases h with
  | reached keeps here =>
      rw [run_bind hread]
      exact (hnext _ _ rfl keeps here).after keeps
  | failed keeps reads =>
      rw [run_bind_error hread]
      exact .failed keeps reads

/-- The evaluator goes on alone where nothing is left to be read. -/
theorem Meets.map {r : Except Failure α} {x : EStateM.Result Stop Place β} {f : α → γ}
    {value' : γ → β} (h : Meets text value cursor start r x)
    (hvalue : ∀ a, value' (f a) = value a) (hcursor : ∀ a, cursor' (f a) = cursor a) :
    Meets text value' cursor' start (r >>= fun a => .ok (f a)) x := by
  cases h with
  | @reached a now keeps here =>
      have hmet : Meets text value' cursor' start (.ok (f a)) (.ok (value' (f a)) now) :=
        .reached keeps (hcursor a ▸ here)
      rwa [hvalue] at hmet
  | failed keeps reads => exact .failed keeps reads

theorem meets_fail (h : Mirrors text start c) (error : ExpressionError) :
    Meets text value cursor start (c.fail error) ((fail error : Reader β) start) :=
  .failed (.refl start) h.reads

theorem meets_unknown (h : Mirrors text start c) {first : Char} (hfirst : c.peek? = some first)
    (byte : Char) :
    Meets text value cursor start (c.unknown first)
      ((unknown (encoded text) byte : Reader β) start) := by
  rw [unknown_of_mirrors h hfirst]
  exact .failed (.refl start) h.reads

/-- From wherever it starts at this depth, a reader comes to the same end as an operand. -/
def MeetsAll (text : List Char) (depth : Nat) (operand : Operand) (read : Reader UInt32) : Prop :=
  ∀ (start : Place) (c : Cursor), Mirrors text start c → start.depth = depth →
    Meets text Prod.fst Prod.snd start (operand start.skipping c) (read start)

/-! ## Punctuation -/

/-- What the reader sees of a character: itself if it is ASCII, else nothing that is. -/
structure Sees (seen actual : Option Char) : Prop where
  none : seen = none ↔ actual = none
  mark : ∀ mark, IsAscii mark → (seen = some mark ↔ actual = some mark)

theorem sees_of_mirrors (h : Mirrors text start c) :
    ∃ seen, peek (encoded text) start = .ok seen start ∧ Sees seen c.peek? := by
  refine ⟨_, peek_of_mirrors h, ?_⟩
  rcases head?_blurred c.rest with heq | ⟨first, byte, hfirst, hbyte, hnot, hnot'⟩
  · rw [heq]
    exact ⟨Iff.rfl, fun _ _ => Iff.rfl⟩
  · rw [hbyte, Cursor.peek?, hfirst]
    refine ⟨iff_of_false (Option.some_ne_none _) (Option.some_ne_none _),
      fun mark hmark => iff_of_false ?_ ?_⟩
    · exact fun heq => hnot' (Option.some.inj heq ▸ hmark)
    · exact fun heq => hnot (Option.some.inj heq ▸ hmark)

theorem meets_expectLimit (h : Mirrors text start c) :
    Meets text (fun _ => ()) (fun c' => c') start c.expectEnd
      (expectLimit (encoded text) start) := by
  obtain ⟨now, hskip, hkeeps, hnow⟩ := skipBlanks_of_mirrors h
  obtain ⟨seen, hpeek, hsees⟩ := sees_of_mirrors hnow
  refine .after ?_ hkeeps
  rw [expectLimit, run_bind hskip, bind_get, run_bind hpeek, Cursor.expectEnd, hnow.position]
  rcases hfirst : c.skipSpace.peek? with _ | first
  · rw [hsees.none.mpr hfirst]
    exact .reached (.refl _) hnow
  · have hseen : ∀ mark, IsAscii mark → first = mark → seen = some mark := fun mark hmark heq =>
      (hsees.mark mark hmark).mpr (hfirst.trans (congrArg some heq))
    by_cases hgroup : (first = '(' || first = ')') = true
    · simp only [if_pos hgroup]
      rw [Bool.or_eq_true, decide_eq_true_eq, decide_eq_true_eq] at hgroup
      rcases hgroup with heq | heq
      all_goals
        rw [hseen _ (by decide) heq]
        exact meets_fail hnow _
    by_cases hvalue : (first = '[' || first = ']' || first = '<' || first = '>') = true
    · simp only [if_neg hgroup, if_pos hvalue]
      simp only [Bool.or_eq_true, decide_eq_true_eq] at hvalue
      rcases hvalue with ((heq | heq) | heq) | heq
      all_goals
        rw [hseen _ (by decide) heq]
        exact meets_fail hnow _
    · have hactual : ∀ mark, IsAscii mark → seen = some mark → first = mark := fun mark hmark heq =>
        Option.some.inj (hfirst.symm.trans ((hsees.mark mark hmark).mp heq))
      simp only [if_neg hgroup, if_neg hvalue]
      split
      · have hnone := hsees.none.mp rfl
        rw [hfirst] at hnone
        cases hnone
      · exact absurd (by rw [hactual _ (by decide) rfl]; decide) hgroup
      · exact absurd (by rw [hactual _ (by decide) rfl]; decide) hgroup
      · exact absurd (by rw [hactual _ (by decide) rfl]; decide) hvalue
      · exact absurd (by rw [hactual _ (by decide) rfl]; decide) hvalue
      · exact absurd (by rw [hactual _ (by decide) rfl]; decide) hvalue
      · exact absurd (by rw [hactual _ (by decide) rfl]; decide) hvalue
      · exact meets_unknown hnow hfirst _

theorem meets_expectColon (h : Mirrors text start c) :
    Meets text (fun _ => ()) (fun c' => c') start (Expression.expectColon c)
      (expectColon (encoded text) start) := by
  obtain ⟨now, hskip, hkeeps, hnow⟩ := skipBlanks_of_mirrors h
  obtain ⟨seen, hpeek, hsees⟩ := sees_of_mirrors hnow
  refine .after ?_ hkeeps
  rw [expectColon, run_bind hskip, bind_get, run_bind hpeek, Expression.expectColon, hnow.position]
  split
  · rename_i hcolon
    obtain ⟨others, hrest⟩ := List.head?_eq_some_iff.mp hcolon
    obtain ⟨next, hadvance, hkeeps', hnext⟩ :=
      advance_of_mirrors hnow (hrest ▸ takes_sign (by decide) others)
    rw [(hsees.mark _ (by decide)).mpr hcolon]
    show Meets text (fun _ => ()) (fun c' => c') now _ (advance (encoded text) 1 now)
    rw [hadvance]
    exact .reached hkeeps' hnext
  · rename_i first hother hfirst
    split
    · exact absurd (Option.some.inj (hfirst.symm.trans ((hsees.mark _ (by decide)).mp rfl))) hother
    · exact meets_unknown hnow hfirst _
    · rw [hsees.none.mp rfl] at hfirst
      cases hfirst
  · rename_i hnone
    rw [hsees.none.mpr hnone]
    exact meets_fail hnow _

/-! ## The climb -/

theorem meets_combine {after : Cursor} (h : Mirrors text now after) (op : BinaryOp)
    (lhs rhs : UInt32) (offset : Nat) :
    Meets text id (fun _ => after) now (Expression.combine op now.skipping lhs rhs after offset)
      (Buffer.combine op lhs rhs offset now) := by
  rw [Expression.combine, Buffer.combine, bind_get]
  rcases op.apply lhs rhs with _ | v
  · dsimp only
    split
    · exact .reached (.refl now) h
    · exact meets_fail h _
  · exact .reached (.refl now) h

/-- What the reader makes of both operands. -/
def finish (op : Operator) (lhs rhs : UInt32) (offset : Nat) : Reader UInt32 :=
  match op with
  | .binary .logicalAnd => pure (truth (lhs != 0 && rhs != 0))
  | .binary .logicalOr => pure (truth (lhs != 0 || rhs != 0))
  | .binary op | .assign (some op) => Buffer.combine op lhs rhs offset
  | .orElse => pure (if lhs != 0 then lhs else rhs)
  | _ => pure rhs

theorem meets_finish {after : Cursor} (h : Mirrors text now after) (op : Operator)
    (lhs rhs : UInt32) (offset : Nat) :
    Meets text id (fun _ => after) now (op.finish now.skipping lhs rhs after offset)
      (finish op lhs rhs offset now) := by
  have hvalue : ∀ v : UInt32, Meets text id (fun _ => after) now (.ok v) (.ok v now) :=
    fun v => .reached (.refl now) h
  cases op with
  | binary op => cases op <;> first | exact hvalue _ | exact meets_combine h _ lhs rhs offset
  | orElse => exact hvalue _
  | comma => exact hvalue _
  | assign compound =>
      rcases compound with _ | op
      · exact hvalue _
      · exact meets_combine h op lhs rhs offset
  | ternary => exact hvalue _
  | increment => exact hvalue _

/-- The right operand, which may not count behind `lhs`. -/
def side (op : Operator) (lhs : UInt32) (read : Reader UInt32) : Reader UInt32 :=
  match op with
  | .binary .logicalAnd => skippable (lhs == 0) read
  | .binary .logicalOr | .orElse => skippable (lhs != 0) read
  | _ => read

theorem operate_joined (input : List UInt8) (right : Nat → Reader UInt32) {op : Operator}
    (two : op.takesTwo = true) (lhs : UInt32) (offset : Nat) :
    operate input right op lhs offset = (do
      let rhs ← side op lhs (right (rightLevel op.level))
      finish op lhs rhs offset) := by
  cases op with
  | binary op => cases op <;> rfl
  | orElse => rfl
  | comma => exact (bind_pure _).symm
  | assign compound =>
      rcases compound with _ | op
      · exact (bind_pure _).symm
      · cases op <;> rfl
  | ternary => cases two
  | increment => cases two

theorem operate_ternary (input : List UInt8) (right : Nat → Reader UInt32) (lhs : UInt32)
    (offset : Nat) :
    operate input right .ternary lhs offset = (do
      let taken ← skippable (lhs == 0) (right 1)
      expectColon input
      let other ← skippable (lhs != 0) (right 3)
      return if lhs != 0 then taken else other) := rfl

/-- What is read while it does not count leaves what counts as it was. -/
theorem meets_skippable {r : Evaluated} {read : Reader UInt32} (skip : Bool)
    (h : Meets text Prod.fst Prod.snd { start with skipping := start.skipping || skip } r
      (read { start with skipping := start.skipping || skip })) :
    Meets text Prod.fst Prod.snd start r (skippable skip read start) := by
  have henter :=
    bind_modify (fun place => { place with skipping := place.skipping || skip }) read start
  generalize hread : read { start with skipping := start.skipping || skip } = x at h
  rw [hread] at henter
  cases h with
  | reached keeps here =>
      rw [skippable, restoring_ok henter]
      exact .reached ⟨keeps.limit, rfl, keeps.depth⟩
        ⟨here.around, here.position, here.limit, here.reads⟩
  | failed keeps reads =>
      rw [skippable, restoring_error henter]
      exact .failed ⟨keeps.limit, rfl, keeps.depth⟩ reads

theorem meets_skipped (h : Mirrors text start c) (skip : Bool) (r : Bool → Evaluated)
    {read : Reader UInt32}
    (hread : ∀ start', Mirrors text start' c → start'.depth = start.depth →
      Meets text Prod.fst Prod.snd start' (r start'.skipping) (read start')) :
    Meets text Prod.fst Prod.snd start (r (start.skipping || skip)) (skippable skip read start) :=
  meets_skippable skip (hread _ ⟨h.around, h.position, h.limit, h.reads⟩ rfl)

theorem meets_side (h : Mirrors text start c) (op : Operator) (lhs : UInt32) (r : Bool → Evaluated)
    {read : Reader UInt32}
    (hread : ∀ start', Mirrors text start' c → start'.depth = start.depth →
      Meets text Prod.fst Prod.snd start' (r start'.skipping) (read start')) :
    Meets text Prod.fst Prod.snd start (r (op.skips start.skipping lhs))
      (side op lhs read start) := by
  have hplain := hread start h rfl
  cases op with
  | binary op => cases op <;> first | exact hplain | exact meets_skipped h _ r hread
  | orElse => exact meets_skipped h _ r hread
  | _ => exact hplain

section Climb

variable {scope : Scope} {depth : Nat} {operand : Operand} {read : Reader UInt32}

/-- An operand that is read, and the operators behind it. -/
def readAndMore (input : List UInt8) (read : Reader UInt32) (steps least : Nat) :
    Reader UInt32 := do
  let first ← read
  climb input read steps least first

theorem climb_stops (h : Mirrors text start c) (least : Nat)
    (hstill : ∀ op length, Operator.atStart? c.skipSpace.rest = some (op, length) →
      op.level < least) (read : Reader UInt32) (steps : Nat) (lhs : UInt32) :
    ∃ now, climb (encoded text) read (steps + 1) least lhs start = .ok lhs now ∧ Keeps start now ∧
      Mirrors text now c.skipSpace := by
  obtain ⟨now, hskip, hkeeps, hnow⟩ := skipBlanks_of_mirrors h
  refine ⟨now, ?_, hkeeps, hnow⟩
  rw [climb, run_bind hskip, bind_get, run_bind (rest_of_mirrors hnow)]
  have hfound : Operator.atStart? (asChars (encoded c.skipSpace.rest)) =
      Operator.atStart? c.skipSpace.rest := Operator.atStart?_blurred c.skipSpace.rest
  rw [hfound]
  rcases hop : Operator.atStart? c.skipSpace.rest with _ | ⟨op, length⟩
  · rfl
  · have hweak : op.precedence < least := by
      rw [Operator.precedence_eq_level]
      exact hstill op length hop
    dsimp only
    rw [if_pos hweak]
    rfl

theorem climb_takes (h : Mirrors text start c) {op : Operator} {length least : Nat}
    (hop : Operator.atStart? c.skipSpace.rest = some (op, length)) (hle : least ≤ op.level)
    (read : Reader UInt32) (steps : Nat) (lhs : UInt32) :
    ∃ now, Keeps start now ∧ Mirrors text now (c.skipSpace.advance length) ∧
      climb (encoded text) read (steps + 1) least lhs start = (do
        let value ← operate (encoded text) (readAndMore (encoded text) read steps) op lhs
          c.skipSpace.offset
        climb (encoded text) read steps least value : Reader UInt32) now := by
  obtain ⟨behind, hskip, hkeeps, hbehind⟩ := skipBlanks_of_mirrors h
  obtain ⟨now, hadvance, hkeeps', hnow⟩ :=
    advance_of_mirrors hbehind (Operator.takes_atStart? hop).1
  refine ⟨now, hkeeps.trans hkeeps', hnow, ?_⟩
  have hfound : Operator.atStart? (asChars (encoded c.skipSpace.rest)) = some (op, length) :=
    (Operator.atStart?_blurred c.skipSpace.rest).trans hop
  have hstrong : ¬ op.precedence < least := by
    rw [Operator.precedence_eq_level]
    exact Nat.not_lt.mpr hle
  rw [climb, run_bind hskip, bind_get, run_bind (rest_of_mirrors hbehind), hfound,
    hbehind.position]
  dsimp only
  rw [if_neg hstrong]
  exact run_bind hadvance

/-- The steps of both are enough for what is left: the evaluator has one for each character,
and the reader one for each byte and one more. -/
structure Enough (steps bytes : Nat) (c : Cursor) : Prop where
  steps : c.rest.length ≤ steps
  bytes : utf8Size c.rest < bytes

theorem Enough.further {steps bytes : Nat} {c c' : Cursor} {used : List Char}
    (h : Enough steps bytes c) (hpassed : c.Passed used c') : Enough steps bytes c' :=
  ⟨Nat.le_trans hpassed.length_le h.steps, Nat.lt_of_le_of_lt hpassed.size_le h.bytes⟩

/-- An operator takes at least one character, which is at least one byte. -/
theorem Enough.behind {op : Operator} {length steps bytes : Nat}
    (h : Enough (steps + 1) (bytes + 1) c)
    (hop : Operator.atStart? c.skipSpace.rest = some (op, length)) :
    Enough steps bytes (c.skipSpace.advance length) := by
  obtain ⟨hsteps, hbytes⟩ := h.further c.passed_skipSpace
  obtain ⟨htakes, hpos⟩ := Operator.takes_atStart? hop
  have hpassed := Cursor.passed_advance htakes
  have hlength := congrArg List.length hpassed.rest
  have hsize := congrArg utf8Size hpassed.rest
  rw [List.length_append, List.length_take, Nat.min_eq_left htakes.fits] at hlength
  rw [Text.utf8Size_append, htakes.utf8Size_take] at hsize
  exact ⟨by omega, by omega⟩

/-- With so many steps left to the evaluator, the reader climbs as it does. -/
def ClimbMeets (text : List Char) (depth : Nat) (operand : Operand) (read : Reader UInt32)
    (steps : Nat) : Prop :=
  ∀ (bytes least : Nat) (lhs : UInt32) (start : Place) (c : Cursor), Mirrors text start c →
    start.depth = depth → Enough steps bytes c →
      Meets text Prod.fst Prod.snd start (Expression.climb operand steps least start.skipping lhs c)
        (climb (encoded text) read bytes least lhs start)

section Behind

variable {steps bytes : Nat} (hread : MeetsAll text depth operand read)
  (hpasses : PassesAll scope operand) (hclimb : ClimbMeets text depth operand read steps)
  (h : Mirrors text start c) (hdepth : start.depth = depth) (henough : Enough steps bytes c)
include hread hpasses hclimb h hdepth henough

theorem meets_readAndMore (least : Nat) :
    Meets text Prod.fst Prod.snd start
      (operandAndMore operand (fun _ => steps) least start.skipping c)
      (readAndMore (encoded text) read bytes least start) := by
  refine (hread start c h hdepth).bind fun first now hfirst hkeeps hnow => ?_
  obtain ⟨used, hpassed⟩ := hpasses.passed hfirst
  rw [← hkeeps.skipping]
  exact hclimb bytes least first.1 now first.2 hnow (hkeeps.depth.trans hdepth)
    (henough.further hpassed)

theorem meets_branch (least : Nat) (skip : Bool) :
    Meets text Prod.fst Prod.snd start
      (operandAndMore operand (fun _ => steps) least (start.skipping || skip) c)
      (skippable skip (readAndMore (encoded text) read bytes least) start) :=
  meets_skipped h skip (fun skipping => operandAndMore operand (fun _ => steps) least skipping c)
    fun _ h' hd => meets_readAndMore hread hpasses hclimb h' (hd.trans hdepth) henough least

theorem meets_joined {op : Operator} (two : op.takesTwo = true) (lhs : UInt32)
    (offset least : Nat) :
    Meets text Prod.fst Prod.snd start
      (do
        let (rhs, after) ← operandAndMore operand (fun _ => steps) (rightLevel op.level)
          (op.skips start.skipping lhs) c
        let value ← op.finish start.skipping lhs rhs after offset
        Expression.climb operand steps least start.skipping value after)
      ((do
        let value ← operate (encoded text) (readAndMore (encoded text) read bytes) op lhs offset
        climb (encoded text) read bytes least value : Reader UInt32) start) := by
  have hright := meets_side h op lhs
    (fun skipping => operandAndMore operand (fun _ => steps) (rightLevel op.level) skipping c)
    fun _ h' hd =>
      meets_readAndMore hread hpasses hclimb h' (hd.trans hdepth) henough (rightLevel op.level)
  rw [operate_joined _ _ two, bind_assoc]
  refine hright.bind fun rhs now hrhs hkeeps hnow => ?_
  obtain ⟨used, hpassed⟩ :=
    (hpasses.operandAndMore steps (rightLevel op.level)).passed hrhs
  dsimp only
  rw [← hkeeps.skipping]
  refine (meets_finish hnow op lhs rhs.1 offset).bind fun value next _ hkeeps' hnext => ?_
  rw [← hkeeps'.skipping]
  exact hclimb bytes least value next rhs.2 hnext ((hkeeps.trans hkeeps').depth.trans hdepth)
    (henough.further hpassed)

theorem meets_ternary (lhs : UInt32) (offset least : Nat) :
    Meets text Prod.fst Prod.snd start
      (do
        let (taken, c) ← operandAndMore operand (fun _ => steps) 1 (start.skipping || lhs == 0) c
        let c ← Expression.expectColon c
        let (other, c) ← operandAndMore operand (fun _ => steps) 3 (start.skipping || lhs != 0) c
        Expression.climb operand steps least start.skipping (if lhs != 0 then taken else other) c)
      ((do
        let value ← operate (encoded text) (readAndMore (encoded text) read bytes) .ternary lhs
          offset
        climb (encoded text) read bytes least value : Reader UInt32) start) := by
  rw [operate_ternary, bind_assoc]
  refine (meets_branch hread hpasses hclimb h hdepth henough 1 _).bind
    fun taken now htaken hkeeps hnow => ?_
  obtain ⟨used, hpassed⟩ := (hpasses.operandAndMore steps 1).passed htaken
  rw [bind_assoc]
  refine (meets_expectColon hnow).bind fun colon next hcolon hkeeps' hnext => ?_
  obtain ⟨used', hpassed'⟩ := (went_of_expectColon hcolon : Went scope taken.2 colon).passed
  have hkept : Keeps start next := hkeeps.trans hkeeps'
  have henough' : Enough steps bytes colon := henough.further (hpassed.trans hpassed')
  rw [bind_assoc, ← hkept.skipping]
  refine (meets_branch hread hpasses hclimb hnext (hkept.depth.trans hdepth) henough' 3 _).bind
    fun other last hother hkeeps'' hlast => ?_
  obtain ⟨used'', hpassed''⟩ := (hpasses.operandAndMore steps 3).passed hother
  rw [pure_bind, ← hkeeps''.skipping]
  exact hclimb bytes least _ last other.2 hlast ((hkept.trans hkeeps'').depth.trans hdepth)
    (henough'.further hpassed'')

end Behind

/-- The reader climbs as the evaluator does.  The induction is on the steps of the evaluator. -/
theorem climbMeets (hread : MeetsAll text depth operand read) (hpasses : PassesAll scope operand)
    (steps : Nat) : ClimbMeets text depth operand read steps := by
  induction steps with
  | zero =>
      intro bytes least lhs start c h hdepth henough
      have hbytes := henough.bytes
      have hrest : c.rest = [] := List.length_eq_zero_iff.mp (Nat.le_zero.mp henough.steps)
      have hsolid : c.skipSpace = c := skipSpace_of_solid (by rw [Cursor.peek?, hrest]; rfl)
      obtain ⟨bytes, rfl⟩ : ∃ more, bytes = more + 1 := ⟨bytes - 1, by omega⟩
      have hstill : ∀ op length, Operator.atStart? c.skipSpace.rest = some (op, length) →
          op.level < least := by
        rw [hsolid, hrest]
        intro op length hop
        cases hop
      obtain ⟨now, hstops, hkeeps, hnow⟩ := climb_stops h least hstill read bytes lhs
      rw [hstops]
      exact .reached hkeeps (hsolid ▸ hnow)
  | succ steps ih =>
      intro bytes least lhs start c h hdepth henough
      have hbytes := henough.bytes
      obtain ⟨bytes, rfl⟩ : ∃ more, bytes = more + 1 := ⟨bytes - 1, by omega⟩
      rcases goes_or_still c least with ⟨op, length, hop, hle⟩ | hstill
      · obtain ⟨now, hkeeps, hnow, htakes⟩ := climb_takes h hop hle read bytes lhs
        have hdepth' : now.depth = depth := hkeeps.depth.trans hdepth
        refine .after ?_ hkeeps
        rw [htakes, ← hkeeps.skipping]
        rcases takesTwo_of_atStart? hop with htwo | rfl | rfl
        · rw [climb_joined operand htwo hop hle]
          exact meets_joined hread hpasses ih hnow hdepth' (henough.behind hop) htwo lhs _ least
        · rw [climb_ternary operand hop hle]
          exact meets_ternary hread hpasses ih hnow hdepth' (henough.behind hop) lhs _ least
        · rw [climb_increment operand hop hle]
          exact ih bytes least lhs now _ hnow hdepth' (henough.behind hop)
      · obtain ⟨now, hstops, hkeeps, hnow⟩ := climb_stops h least hstill read bytes lhs
        rw [climb_still operand hstill, hstops]
        exact .reached hkeeps hnow

theorem meets_expression (hread : MeetsAll text depth operand read)
    (hpasses : PassesAll scope operand) :
    MeetsAll text depth (Expression.expression operand) (expression (encoded text) read) := by
  intro start c h hdepth
  refine (hread start c h hdepth).bind fun first now hfirst hkeeps hnow => ?_
  rw [bind_get, ← hkeeps.skipping, hnow.limit_sub]
  exact climbMeets hread hpasses _ _ 1 first.1 now first.2 hnow (hkeeps.depth.trans hdepth)
    ⟨Nat.le_refl _, Nat.lt_succ_self _⟩

end Climb

end CodePatch.Expression.Buffer
