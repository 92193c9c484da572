/-
# One walk over the evaluator

Whatever is said of reading at large is said of every operand, by an induction that goes through all
the parts of the evaluator.  It is done once, for two readings of one text side by side
(`walks_operand`).  The second may stand further on in another text, it may only skip what the first
reads, and it may have more levels of nesting left (`Rereading`).  They stay in step (`Tracks`):

* where the first ends, so does the second, at the same place;
* where the first fails for the form of the text, so does the second;
* where the first lacks a value, a second one that skips goes on, as if there were one;
* where the first runs out of levels, one with more of them may come to anything.

Along with that goes what holds of the first by itself, of the place that it reaches (`Went`) and of
its failure (`FailsFrom`).  A text that is read once is the case of two readings that are the same.

Skipped text, text that is moved, and reading without registers are cases of this; the reader of a
buffer is not, since it is another program.
-/
import CodePatch.Proofs.Expression.Nesting

namespace CodePatch

namespace ExpressionError

/-- Does the error say that a value could not be had, rather than that the text
is malformed or nested too deeply? -/
def isOfValue : ExpressionError → Bool
  | .divisionByZero _ | .memoryUnreadable _ _ | .optionNotFound _ | .caveNotFound _
  | .symbolNotFound _ => true
  | _ => false

/-- Does the error say that the text is malformed? -/
def isOfForm : ExpressionError → Bool
  | .unmatchedGrouping _ | .unmatchedValueBrackets _ | .unknownCharacter _ _ | .unexpectedEnd _
  | .dereferenceWithoutRegisters _ => true
  | _ => false

/-- Does the error say that a name is not known? -/
def isOfName : ExpressionError → Bool
  | .optionNotFound _ | .caveNotFound _ | .symbolNotFound _ => true
  | _ => false

/-- The error in a text that starts `distance` further on. -/
def shift (distance : Nat) : ExpressionError → ExpressionError
  | .unmatchedGrouping offset => .unmatchedGrouping (offset + distance)
  | .unmatchedValueBrackets offset => .unmatchedValueBrackets (offset + distance)
  | .unknownCharacter character offset => .unknownCharacter character (offset + distance)
  | .unexpectedEnd offset => .unexpectedEnd (offset + distance)
  | .dereferenceWithoutRegisters offset => .dereferenceWithoutRegisters (offset + distance)
  | .divisionByZero offset => .divisionByZero (offset + distance)
  | .nestingTooDeep offset => .nestingTooDeep (offset + distance)
  | .optionNotFound name => .optionNotFound name
  | .caveNotFound name => .caveNotFound name
  | .symbolNotFound name => .symbolNotFound name
  | .memoryUnreadable address size => .memoryUnreadable address size

variable {error : ExpressionError}

theorem isOfValue_of_isOfForm (h : error.isOfForm = true) : error.isOfValue = false := by
  cases error <;> first | rfl | cases h

theorem ne_nestingTooDeep_of_isOfForm (h : error.isOfForm = true) (offset : Nat) :
    error ≠ .nestingTooDeep offset := by
  rintro rfl
  cases h

end ExpressionError

namespace Expression

/-! ## Two readings in step -/

/-- How a text is read for a second time. -/
structure Rereading where
  /-- It starts so much further on. -/
  distance : Nat := 0
  /-- It is only skipped, where memory was read so often before. -/
  skipped : Option Nat := none
  /-- So many more levels are left. -/
  deeper : Nat := 0

namespace Rereading

variable (t : Rereading)

/-- Where the second reading stands while the first stands at `c`. -/
def place (c : Cursor) : Cursor :=
  { offset := c.offset + t.distance, rest := c.rest, reads := t.skipped.getD c.reads }

/-- Does the second reading skip what the first reads? -/
def skips (skipping : Bool) : Bool :=
  match t.skipped with
  | none => skipping
  | some _ => true

/-- Values come out the same, unless nobody asks for the second one. -/
def Alike (v w : UInt32) : Prop :=
  t.skipped = none → v = w

theorem skips_true : t.skips true = true := by
  unfold skips
  split <;> rfl

theorem skips_or (skipping : Bool) {b b' : Bool} (h : t.skipped = none → b = b') :
    (t.skips skipping || b') = t.skips (skipping || b) := by
  rcases hskipped : t.skipped with _ | reads
  · simp only [skips, hskipped, h hskipped]
  · simp only [skips, hskipped, Bool.true_or]

theorem place_advance (c : Cursor) (count : Nat) :
    (t.place c).advance count = t.place (c.advance count) := by
  simp only [place, Cursor.advance, Nat.add_right_comm]

theorem place_skipSpace (c : Cursor) : (t.place c).skipSpace = t.place c.skipSpace :=
  t.place_advance c _

theorem place_inside (c : Cursor) (close : Nat) :
    (t.place c).inside close = t.place (c.inside close) := by
  simp only [Cursor.inside, place_advance]
  rfl

theorem place_behind (c : Cursor) (close : Nat) (inner : Cursor) :
    (t.place c).behind close (t.place inner) = t.place (c.behind close inner) := by
  simp only [Cursor.behind, place_advance]
  rfl

end Rereading

/-- What comes of one reading, and what comes of the other. -/
inductive Tracks (t : Rereading) (Goes : Cursor → Prop) (Fails : Failure → Prop) :
    Evaluated → Evaluated → Prop where
  | reached {v w : UInt32} {c : Cursor} (alike : t.Alike v w) (goes : Goes c) :
      Tracks t Goes Fails (.ok (v, c)) (.ok (w, t.place c))
  | failed {error : ExpressionError} {reads : Nat} (fails : Fails ⟨error, reads⟩)
      (both : t.skipped = none ∨ error.isOfValue = false) :
      Tracks t Goes Fails (.error ⟨error, reads⟩)
        (.error ⟨error.shift t.distance, t.skipped.getD reads⟩)
  | lacking {failure : Failure} {r r' : Evaluated} (fails : Fails failure)
      (value : failure.error.isOfValue = true) (skipped : t.skipped ≠ none)
      (goesOn : Tracks t Goes Fails r r') : Tracks t Goes Fails (.error failure) r'
  | tooDeep {offset reads : Nat} {r' : Evaluated} (fails : Fails ⟨.nestingTooDeep offset, reads⟩)
      (deeper : 0 < t.deeper) : Tracks t Goes Fails (.error ⟨.nestingTooDeep offset, reads⟩) r'

namespace Tracks

variable {t : Rereading} {Goes Goes' : Cursor → Prop} {Fails Fails' : Failure → Prop}
  {r r' : Evaluated}

theorem mono (h : Tracks t Goes Fails r r') (hgoes : ∀ c, Goes c → Goes' c)
    (hfails : ∀ failure, Fails failure → Fails' failure) : Tracks t Goes' Fails' r r' := by
  induction h with
  | reached alike goes => exact .reached alike (hgoes _ goes)
  | failed fails both => exact .failed (hfails _ fails) both
  | lacking fails value skipped _ ih => exact .lacking (hfails _ fails) value skipped ih
  | tooDeep fails deeper => exact .tooDeep (hfails _ fails) deeper

/-- Both readings go on from the same place, with values that are alike. -/
theorem bind {f g : UInt32 × Cursor → Evaluated} (h : Tracks t Goes Fails r r')
    (hnext : ∀ v w c, t.Alike v w → Goes c →
      Tracks t Goes' Fails (f (v, c)) (g (w, t.place c))) :
    Tracks t Goes' Fails (r >>= f) (r' >>= g) := by
  induction h with
  | reached alike goes => exact hnext _ _ _ alike goes
  | failed fails both => exact .failed fails both
  | lacking fails value skipped _ ih => exact .lacking fails value skipped ih
  | tooDeep fails deeper => exact .tooDeep fails deeper

theorem goes (h : Tracks t Goes Fails r r') {read : UInt32 × Cursor} (hr : r = .ok read) :
    Goes read.2 := by
  subst hr
  cases h with
  | reached _ hgoes => exact hgoes

theorem fails (h : Tracks t Goes Fails r r') {failure : Failure} (hr : r = .error failure) :
    Fails failure := by
  subst hr
  cases h with
  | failed hfails => exact hfails
  | lacking hfails => exact hfails
  | tooDeep hfails => exact hfails

/-- Where a value counts the second reading has it, and where it does not it has one too. -/
theorem of_lookup {lookup lookup' : Except Failure UInt32} {error : ExpressionError} {reads : Nat}
    {f g : UInt32 → Evaluated} (hfails : Fails ⟨error, reads⟩) (hvalue : error.isOfValue = true)
    (h : (∃ v w, lookup = .ok v ∧ lookup' = .ok w ∧ t.Alike v w) ∨
      (lookup = .error ⟨error, reads⟩ ∧
        (t.skipped = none → lookup' = .error ⟨error.shift t.distance, reads⟩) ∧
        (t.skipped ≠ none → ∃ w, lookup' = .ok w)))
    (hnext : ∀ v w, t.Alike v w → Tracks t Goes Fails (f v) (g w)) :
    Tracks t Goes Fails (lookup >>= f) (lookup' >>= g) := by
  rcases h with ⟨v, w, rfl, rfl, halike⟩ | ⟨rfl, hcounts, hskips⟩
  · exact hnext v w halike
  · by_cases hskipped : t.skipped = none
    · have hboth : Tracks t Goes Fails (.error ⟨error, reads⟩)
          (.error ⟨error.shift t.distance, t.skipped.getD reads⟩) := .failed hfails (.inl hskipped)
      rw [hcounts hskipped]
      rwa [hskipped] at hboth
    · obtain ⟨w, rfl⟩ := hskips hskipped
      exact .lacking hfails hvalue hskipped (hnext w w fun _ => rfl)

end Tracks

/-! ## What holds of one reading -/

/-- `c'` lies further on than `c`; without registers nothing is read from memory on the way. -/
structure Went (scope : Scope) (c c' : Cursor) : Prop where
  passed : ∃ used, c.Passed used c'
  unread : scope.registers = none → c'.reads = c.reads

/-- A failure that is true of the text of `c`.  What is left of the text is as deep as it takes to
run out of levels, if that is the failure. -/
structure FailsFrom (scope : Scope) (Deep : List Char → Prop) (c : Cursor) (failure : Failure) :
    Prop where
  points : failure.error.PointsFrom c
  unread : '[' ∉ c.rest ∨ scope.registers = none → failure.reads = c.reads
  deep : ∀ offset, failure.error = .nestingTooDeep offset → Deep c.rest

/-- From any place, the second operand tracks the first. -/
def Walks (scope : Scope) (t : Rereading) (Deep : List Char → Prop) (operand again : Operand) :
    Prop :=
  ∀ (skipping : Bool) (c : Cursor),
    Tracks t (Went scope c) (FailsFrom scope Deep c) (operand skipping c)
      (again (t.skips skipping) (t.place c))

variable {scope : Scope} {t : Rereading} {Deep Deep' : List Char → Prop} {c c' : Cursor}

theorem went_of_passed {used : List Char} (h : c.Passed used c') (hreads : c'.reads = c.reads) :
    Went scope c c' :=
  ⟨⟨used, h⟩, fun _ => hreads⟩

theorem Went.refl (c : Cursor) : Went scope c c :=
  went_of_passed (.refl c) rfl

theorem Went.trans {c'' : Cursor} (h : Went scope c c') (h' : Went scope c' c'') :
    Went scope c c'' where
  passed := by
    obtain ⟨used, hpassed⟩ := h.passed
    obtain ⟨used', hpassed'⟩ := h'.passed
    exact ⟨_, hpassed.trans hpassed'⟩
  unread hnone := (h'.unread hnone).trans (h.unread hnone)

theorem Went.suffix (h : Went scope c c') : c'.rest <:+ c.rest := by
  obtain ⟨used, hpassed⟩ := h.passed
  exact ⟨used, hpassed.rest.symm⟩

theorem went_advance {length : Nat} (h : Takes c.rest length) : Went scope c (c.advance length) :=
  went_of_passed (Cursor.passed_advance h) rfl

theorem went_skipSpace (c : Cursor) : Went scope c c.skipSpace :=
  went_of_passed c.passed_skipSpace rfl

theorem FailsFrom.outward {inner : Cursor} {failure : Failure}
    (h : FailsFrom scope Deep inner failure) (hwithin : inner.Within c)
    (hreads : '[' ∉ c.rest ∨ scope.registers = none → inner.reads = c.reads)
    (hdeep : Deep inner.rest → Deep' c.rest) : FailsFrom scope Deep' c failure where
  points := h.points.outward hwithin
  unread hnot := by
    obtain ⟨before, behind, hsplit, -⟩ := hwithin.split
    refine (h.unread (hnot.imp_left fun hnot hmem => hnot ?_)).trans (hreads hnot)
    exact hsplit ▸ List.mem_append_right _ (List.mem_append_left _ hmem)
  deep offset herror := hdeep (h.deep offset herror)

theorem FailsFrom.from {failure : Failure} (h : FailsFrom scope Deep c' failure)
    (hwent : Went scope c c') (hdeep : Deep c'.rest → Deep' c.rest) :
    FailsFrom scope Deep' c failure := by
  obtain ⟨used, hpassed⟩ := hwent.passed
  refine h.outward hpassed.within (fun hnot => ?_) hdeep
  exact hnot.elim hpassed.within.unread hwent.unread

theorem Tracks.from {r r' : Evaluated} (h : Tracks t (Went scope c') (FailsFrom scope Deep c') r r')
    (hwent : Went scope c c') (hdeep : Deep c'.rest → Deep' c.rest) :
    Tracks t (Went scope c) (FailsFrom scope Deep' c) r r' :=
  h.mono (fun _ => hwent.trans) fun _ hfails => hfails.from hwent hdeep

theorem Walks.mono {operand again : Operand} (h : Walks scope t Deep operand again)
    (hdeep : ∀ text, Deep text → Deep' text) : Walks scope t Deep' operand again :=
  fun skipping c => (h skipping c).from (.refl c) (hdeep c.rest)

theorem tracks_fail {Goes : Cursor → Prop} {error : ExpressionError} (hwent : Went scope c c')
    (hform : error.isOfForm = true) (hpoints : error.PointsFrom c') :
    Tracks t Goes (FailsFrom scope Deep c) (c'.fail error)
      ((t.place c').fail (error.shift t.distance)) := by
  obtain ⟨used, hpassed⟩ := hwent.passed
  refine .failed ⟨hpoints.outward hpassed.within, ?_, fun offset heq => ?_⟩
    (.inr (ExpressionError.isOfValue_of_isOfForm hform))
  · exact fun hnot => hnot.elim hpassed.within.unread hwent.unread
  · exact absurd heq (ExpressionError.ne_nestingTooDeep_of_isOfForm hform offset)

theorem tracks_unknown {Goes : Cursor → Prop} (hwent : Went scope c c') {character : Char}
    (h : c'.peek? = some character) :
    Tracks t Goes (FailsFrom scope Deep c) (c'.unknown character)
      ((t.place c').unknown character) :=
  tracks_fail hwent rfl (c'.marks_here h List.mem_cons_self)

/-! ## Punctuation -/

theorem tracks_expectEnd {v w : UInt32} (halike : t.Alike v w) (c : Cursor) :
    Tracks t (fun c' => Went scope c c' ∧ c'.rest = []) (FailsFrom scope Deep c)
      (do let c ← c.expectEnd; return (v, c))
      (do let c ← (t.place c).expectEnd; return (w, c)) := by
  have hblanks : Went scope c c.skipSpace := went_skipSpace c
  have hmarked : ∀ {mark marks}, c.skipSpace.peek? = some mark → mark ∈ marks →
      c.skipSpace.Marks c.skipSpace.offset marks := fun h => c.skipSpace.marks_here h
  simp only [Cursor.expectEnd, t.place_skipSpace]
  rcases hpeek : c.skipSpace.peek? with _ | character
  · have hpeek' : (t.place c.skipSpace).peek? = none := hpeek
    simp only [hpeek']
    exact .reached halike ⟨hblanks, List.head?_eq_none_iff.mp hpeek⟩
  · have hpeek' : (t.place c.skipSpace).peek? = some character := hpeek
    simp only [hpeek']
    by_cases hgroup : (character = '(' || character = ')') = true
    · have hmem : character ∈ ['(', ')'] := by simpa using hgroup
      simp only [if_pos hgroup]
      exact tracks_fail hblanks rfl (hmarked hpeek hmem)
    by_cases hvalue : (character = '[' || character = ']' || character = '<' ||
        character = '>') = true
    · have hmem : character ∈ ['[', ']', '<', '>'] := by simpa [or_assoc] using hvalue
      simp only [if_neg hgroup, if_pos hvalue]
      exact tracks_fail hblanks rfl (hmarked hpeek hmem)
    · simp only [if_neg hgroup, if_neg hvalue]
      exact tracks_unknown hblanks hpeek

theorem expectColon_of_ne {character : Char} (hpeek : c.skipSpace.peek? = some character)
    (hne : character ≠ ':') : expectColon c = c.skipSpace.unknown character := by
  rw [expectColon, hpeek]
  split
  · rename_i heq
    exact absurd (Option.some.inj heq) hne
  · rename_i heq
    cases heq
    rfl
  · rename_i heq
    cases heq

theorem tracks_expectColon {Goes : Cursor → Prop} {f g : Cursor → Evaluated} (c : Cursor)
    (hnext : ∀ c', Went scope c c' →
      Tracks t Goes (FailsFrom scope Deep c) (f c') (g (t.place c'))) :
    Tracks t Goes (FailsFrom scope Deep c) (expectColon c >>= f)
      (expectColon (t.place c) >>= g) := by
  have hblanks : Went scope c c.skipSpace := went_skipSpace c
  have hplace : (t.place c).skipSpace = t.place c.skipSpace := t.place_skipSpace c
  rcases hpeek : c.skipSpace.peek? with _ | character
  · have hpeek' : (t.place c.skipSpace).peek? = none := hpeek
    simp only [expectColon, hplace, hpeek, hpeek']
    exact tracks_fail hblanks rfl (.inl (Cursor.ending_of_peek? hpeek))
  · have hpeek' : (t.place c.skipSpace).peek? = some character := hpeek
    by_cases hcolon : character = ':'
    · subst hcolon
      obtain ⟨rest, hrest⟩ := List.head?_eq_some_iff.mp hpeek
      have hmark : Takes c.skipSpace.rest 1 := hrest ▸ takes_sign (by decide) rest
      simp only [expectColon, hplace, hpeek, hpeek', t.place_advance]
      exact hnext _ (hblanks.trans (went_advance hmark))
    · rw [expectColon_of_ne hpeek hcolon, expectColon_of_ne (hplace ▸ hpeek') hcolon, hplace]
      exact tracks_unknown hblanks hpeek

theorem went_of_expectColon (h : expectColon c = .ok c') : Went scope c c' := by
  have hread : Tracks {} (Went scope c) (FailsFrom scope (fun _ => True) c)
      (expectColon c >>= fun c' => .ok (0, c')) (expectColon c >>= fun c' => .ok (0, c')) :=
    tracks_expectColon c fun c' hwent => .reached (fun _ => rfl) hwent
  exact hread.goes (by rw [h]; rfl)

/-! ## The climb -/

/-- An operator says where it stands if it divides by zero; only a second reading that skips has
a value then. -/
theorem tracks_finish {Goes : Cursor → Prop} {op : Operator} {length : Nat} {after : Cursor}
    {lhs lhs' rhs rhs' : UInt32} {f g : UInt32 → Evaluated}
    (hop : Operator.atStart? c.rest = some (op, length)) (skipping : Bool)
    (hlhs : t.Alike lhs lhs') (hrhs : t.Alike rhs rhs') (hwent : Went scope c after)
    (hnext : ∀ v w, t.Alike v w → Tracks t Goes (FailsFrom scope Deep c) (f v) (g w)) :
    Tracks t Goes (FailsFrom scope Deep c) (op.finish skipping lhs rhs after c.offset >>= f)
      (op.finish (t.skips skipping) lhs' rhs' (t.place after) (t.place c).offset >>= g) := by
  have hskips : t.skipped ≠ none →
      ∃ w, op.finish (t.skips skipping) lhs' rhs' (t.place after) (t.place c).offset = .ok w := by
    intro hskipped
    obtain ⟨w, hw⟩ := op.finish_skipping lhs' rhs'
    obtain ⟨reads, hreads⟩ := Option.ne_none_iff_exists'.mp hskipped
    exact ⟨w, by simp only [Rereading.skips, hreads, hw]⟩
  have hsame : t.skipped = none → op.finish (t.skips skipping) lhs' rhs' =
      op.finish skipping lhs rhs := by
    intro hnone
    simp only [Rereading.skips, hnone, hlhs hnone, hrhs hnone]
  rcases op.finish_or_divides skipping lhs rhs with ⟨v, hv⟩ | ⟨-, hdivides, herror⟩
  · by_cases hskipped : t.skipped = none
    · rw [hsame hskipped, hv, hv]
      exact hnext v v fun _ => rfl
    · obtain ⟨w, hw⟩ := hskips hskipped
      rw [hv, hw]
      exact hnext v w fun hnone => absurd hnone hskipped
  · obtain ⟨mark, rest, hrest, hmark⟩ := Operator.head_of_divides hop hdivides
    have hfails : FailsFrom scope Deep c ⟨.divisionByZero c.offset, after.reads⟩ := by
      obtain ⟨used, hpassed⟩ := hwent.passed
      refine ⟨⟨[], mark, rest, hrest, hmark, rfl⟩, fun hnot => ?_, nofun⟩
      exact hnot.elim hpassed.within.unread hwent.unread
    refine .of_lookup hfails rfl (.inr ⟨herror .., fun hnone => ?_, hskips⟩) hnext
    rw [hsame hnone, herror]
    simp only [Rereading.place, hnone]
    rfl

section Climb

variable {operand again : Operand}
  (hclosed : ∀ place text, place <:+ text → Deep place → Deep text)
include hclosed

theorem Tracks.further {r r' : Evaluated}
    (hread : Tracks t (Went scope c') (FailsFrom scope Deep c') r r') (hwent : Went scope c c') :
    Tracks t (Went scope c) (FailsFrom scope Deep c) r r' :=
  hread.from hwent (hclosed _ _ hwent.suffix)

/-- In so many steps, the two climb over the same operators. -/
def Climbs (scope : Scope) (t : Rereading) (Deep : List Char → Prop) (operand again : Operand)
    (steps : Nat) : Prop :=
  ∀ (least : Nat) (skipping : Bool) (lhs lhs' : UInt32) (c : Cursor), t.Alike lhs lhs' →
    Tracks t (Went scope c) (FailsFrom scope Deep c) (climb operand steps least skipping lhs c)
      (climb again steps least (t.skips skipping) lhs' (t.place c))

variable (h : Walks scope t Deep operand again)
include h

section Sides

variable {steps length least : Nat} {skipping : Bool} {lhs lhs' : UInt32}
  (hclimbs : Climbs scope t Deep operand again steps) (halike : t.Alike lhs lhs')
include hclimbs

theorem Climbs.walks (least : Nat) :
    Walks scope t Deep (operandAndMore operand (fun _ => steps) least)
      (operandAndMore again (fun _ => steps) least) :=
  fun skipping c => (h skipping c).bind fun v w c' hvalue hwent =>
    .further hclosed (hclimbs least skipping v w c' hvalue) hwent

include halike

theorem Climbs.joined {op : Operator} (htwo : op.takesTwo = true)
    (hop : Operator.atStart? c.skipSpace.rest = some (op, length)) (hle : least ≤ op.level) :
    Tracks t (Went scope c) (FailsFrom scope Deep c)
      (climb operand (steps + 1) least skipping lhs c)
      (climb again (steps + 1) least (t.skips skipping) lhs' (t.place c)) := by
  have hop' : Operator.atStart? (t.place c).skipSpace.rest = some (op, length) := hop
  have hmark : Went scope c.skipSpace (c.skipSpace.advance length) :=
    went_advance (Operator.takes_atStart? hop).1
  have hskips : op.skips (t.skips skipping) lhs' = t.skips (op.skips skipping lhs) := by
    rw [Operator.skips_eq, Operator.skips_eq]
    exact t.skips_or skipping fun hnone => by rw [halike hnone]
  rw [climb_joined operand htwo hop hle, climb_joined again htwo hop' hle, t.place_skipSpace,
    t.place_advance, hskips]
  refine .further hclosed ?_ (went_skipSpace c)
  refine (Tracks.further hclosed (hclimbs.walks hclosed h _ _ _) hmark).bind
    fun rhs rhs' after hrhs hwent => ?_
  refine tracks_finish hop skipping halike hrhs hwent fun v w hvalue => ?_
  exact .further hclosed (hclimbs least skipping v w after hvalue) hwent

theorem Climbs.ternary
    (hop : Operator.atStart? c.skipSpace.rest = some (.ternary, length))
    (hle : least ≤ Operator.ternary.level) :
    Tracks t (Went scope c) (FailsFrom scope Deep c)
      (climb operand (steps + 1) least skipping lhs c)
      (climb again (steps + 1) least (t.skips skipping) lhs' (t.place c)) := by
  have hop' : Operator.atStart? (t.place c).skipSpace.rest = some (.ternary, length) := hop
  have hmark : Went scope c.skipSpace (c.skipSpace.advance length) :=
    went_advance (Operator.takes_atStart? hop).1
  have hzero : t.skipped = none → (lhs == 0) = (lhs' == 0) := fun hnone => by rw [halike hnone]
  have hother : t.skipped = none → (lhs != 0) = (lhs' != 0) := fun hnone => by rw [halike hnone]
  rw [climb_ternary operand hop hle, climb_ternary again hop' hle, t.place_skipSpace,
    t.place_advance, t.skips_or skipping hzero, t.skips_or skipping hother]
  refine .further hclosed ?_ (went_skipSpace c)
  refine (Tracks.further hclosed (hclimbs.walks hclosed h 1 _ _) hmark).bind
    fun taken taken' behind htaken hwent => ?_
  refine .further hclosed (tracks_expectColon behind fun colon hcolon => ?_) hwent
  refine .further hclosed ((hclimbs.walks hclosed h 3 _ colon).bind
    fun other other' after hvalue hlast => ?_) hcolon
  refine .further hclosed (hclimbs least skipping _ _ after fun hnone => ?_) hlast
  rw [halike hnone, htaken hnone, hvalue hnone]

end Sides

/-- The induction is on the steps left: the sides of an operator are climbed in fewer. -/
theorem tracks_climb (steps : Nat) : Climbs scope t Deep operand again steps := by
  induction steps with
  | zero => exact fun least skipping lhs lhs' c halike => .reached halike (.refl c)
  | succ steps ih =>
      intro least skipping lhs lhs' c halike
      have hplace : (t.place c).skipSpace = t.place c.skipSpace := t.place_skipSpace c
      rcases goes_or_still c least with ⟨op, length, hop, hle⟩ | hstill
      · rcases takesTwo_of_atStart? hop with htwo | rfl | rfl
        · exact ih.joined hclosed h halike htwo hop hle
        · exact ih.ternary hclosed h halike hop hle
        · have hop' : Operator.atStart? (t.place c).skipSpace.rest = some (.increment, length) :=
            hop
          have hmark : Went scope c.skipSpace (c.skipSpace.advance length) :=
            went_advance (Operator.takes_atStart? hop).1
          rw [climb_increment operand hop hle, climb_increment again hop' hle, hplace,
            t.place_advance]
          exact .further hclosed (ih least skipping lhs lhs' _ halike)
            ((went_skipSpace c).trans hmark)
      · have hstill' : ∀ op length,
            Operator.atStart? (t.place c).skipSpace.rest = some (op, length) → op.level < least :=
          hstill
        rw [climb_still operand hstill, climb_still again hstill', hplace]
        exact .reached halike (went_skipSpace c)

theorem walks_operandAndMore (steps : List Char → Nat) (least : Nat) :
    Walks scope t Deep (operandAndMore operand (fun c => steps c.rest) least)
      (operandAndMore again (fun c => steps c.rest) least) :=
  fun skipping c => (h skipping c).bind fun v w c' halike hwent =>
    .further hclosed (tracks_climb hclosed h (steps c'.rest) least skipping v w c' halike) hwent

theorem tracks_enclosed (skipping : Bool) (c : Cursor) :
    Tracks t (fun c' => Went scope c c' ∧ c'.rest = []) (FailsFrom scope Deep c)
      (enclosed operand skipping c) (enclosed again (t.skips skipping) (t.place c)) :=
  (walks_operandAndMore hclosed h List.length 1 skipping c).bind fun _ _ c' halike hwent =>
    (tracks_expectEnd halike c').mono (fun _ hend => ⟨hwent.trans hend.1, hend.2⟩)
      fun _ hfails => hfails.from hwent (hclosed _ _ hwent.suffix)

end Climb

/-- From any place, the operand passes over what it reads. -/
def PassesAll (scope : Scope) (operand : Operand) : Prop :=
  Walks scope {} (fun _ => True) operand operand

theorem PassesAll.passed {operand : Operand} (h : PassesAll scope operand) {skipping : Bool}
    {read : UInt32 × Cursor} (hread : operand skipping c = .ok read) :
    ∃ used, c.Passed used read.2 :=
  ((h skipping c).goes hread).passed

theorem PassesAll.operandAndMore {operand : Operand} (h : PassesAll scope operand)
    (steps least : Nat) : PassesAll scope (operandAndMore operand (fun _ => steps) least) :=
  walks_operandAndMore (fun _ _ _ _ => trivial) h (fun _ => steps) least

theorem PassesAll.enclosed {operand : Operand} (h : PassesAll scope operand) (skipping : Bool)
    (c : Cursor) :
    Tracks {} (fun c' => Went scope c c' ∧ c'.rest = []) (FailsFrom scope (fun _ => True) c)
      (Expression.enclosed operand skipping c) (Expression.enclosed operand skipping c) :=
  tracks_enclosed (fun _ _ _ _ => trivial) h skipping c

/-! ## Brackets and names -/

section Brackets

variable {opens closes : Char} {close : Nat} {inner : List Char}

theorem went_behind (hkind : (opens, closes) ∈ bracketKinds)
    (hpair : c.Pair opens closes close inner)
    {reached : Cursor} (hwent : Went scope (c.inside close) reached) (hend : reached.rest = []) :
    Went scope c (c.behind close reached) := by
  obtain ⟨used, hpassed⟩ := hwent.passed
  -- All that is between the brackets is read, so nothing else was passed.
  have hused : used = inner := by
    rw [← hpair.inside_rest, hpassed.rest, hend, List.append_nil]
  subst hused
  refine ⟨⟨_, hpair.passed reached (fun hnot => ?_) fun hnot => ?_⟩, hwent.unread⟩
  · exact hpassed.unread fun hmem => hnot (List.mem_cons_of_mem _ hmem)
  · have heven := hpassed.even fun hmem => hnot (List.mem_cons_of_mem _ hmem)
    simp only [bracketKinds, List.mem_cons, List.not_mem_nil, or_false, Prod.mk.injEq] at hkind
    rcases hkind with ⟨rfl, rfl⟩ | ⟨rfl, rfl⟩ | ⟨rfl, rfl⟩
    · simp [List.count_append, heven]
    · simp [List.count_append, heven]
    · exact absurd List.mem_cons_self hnot

theorem even_of_pair (h : c.Pair '[' ']' close inner) :
    ('[' :: (inner ++ [']'])).count '[' = ('[' :: (inner ++ [']'])).count ']' := by
  simp [List.count_append, h.even]

theorem went_name {relative : Bool} (hopens : opens = if relative then '[' else '<')
    (hcloses : closes = if relative then ']' else '>') (hpair : c.Pair opens closes close inner) :
    Went scope c (c.behind close c) := by
  refine went_of_passed (hpair.passed c (fun _ => rfl) fun hnot => ?_) rfl
  cases relative with
  | true =>
      subst hopens hcloses
      exact even_of_pair hpair
  | false =>
      subst hopens
      exact absurd List.mem_cons_self hnot

/-- A word may have been read from memory between square brackets, where there are registers. -/
theorem went_word (hregisters : scope.registers ≠ none) (hpair : c.Pair '[' ']' close inner)
    (reached : Cursor) : Went scope c (c.behind close reached) where
  passed := ⟨_, hpair.passed reached (fun hnot => absurd List.mem_cons_self hnot)
    fun _ => even_of_pair hpair⟩
  unread hnone := absurd hnone hregisters

end Brackets

section Operands

variable {levels : Nat} {operand again : Operand}
  (h : Walks scope t (ReachesFrom levels) operand again)
include h

theorem tracks_between {opens closes : Char} (hkind : (opens, closes) ∈ bracketKinds) {close : Nat}
    {inner : List Char} (hclose : Cursor.closing? opens closes 0 c.rest = some close)
    (hpair : c.Pair opens closes close inner) (skipping : Bool) :
    Tracks t (fun reached => Went scope c (c.behind close reached))
      (FailsFrom scope (fun text => ReachesIn levels (placesBetween opens closes text)) c)
      (enclosed operand skipping (c.inside close))
      (enclosed again (t.skips skipping) (t.place (c.inside close))) := by
  have hcloses : closes ∈ [')', ']', '>'] := by
    simp only [bracketKinds, List.mem_cons, List.not_mem_nil, or_false, Prod.mk.injEq] at hkind
    rcases hkind with ⟨-, rfl⟩ | ⟨-, rfl⟩ | ⟨-, rfl⟩ <;> decide
  have hplaces : placesBetween opens closes c.rest = (c.inside close).rest.tails := by
    rw [placesBetween, hclose]
    rfl
  refine (tracks_enclosed (fun _ _ hsuffix hreaches => hreaches.of_suffix hsuffix)
    (h.mono fun _ => ReachesFrom.tails) skipping (c.inside close)).mono
    (fun _ hend => went_behind hkind hpair hend.1 hend.2) fun _ hfails => ?_
  exact hfails.outward (hpair.within hcloses) (fun _ => rfl) fun hreaches =>
    hplaces.symm ▸ hreaches

theorem tracks_group (skipping : Bool) (hpeek : c.peek? = some '(') :
    Tracks t (Went scope c)
      (FailsFrom scope (fun text => ReachesIn levels (placesBetween '(' ')' text)) c)
      (group operand skipping c) (group again (t.skips skipping) (t.place c)) := by
  have hrest : (t.place c).rest = c.rest := rfl
  rw [group, group, hrest]
  rcases hclose : Cursor.closing? '(' ')' 0 c.rest with _ | close
  · exact tracks_fail (.refl c) rfl (c.marks_here hpeek List.mem_cons_self)
  · obtain ⟨inner, hpair⟩ := Cursor.pair_of_closing? (by decide) hpeek hclose
    simp only [t.place_inside]
    refine (tracks_between h (by decide) hclose hpair skipping).bind
      fun v w reached halike hwent => ?_
    rw [t.place_behind]
    exact .reached halike hwent

end Operands

/-- Whether a word is read, and which, is a matter of how often memory was read before. -/
theorem readWord_cases (scope : Scope) (cast : Cast) (address : UInt32) (reads : Nat) :
    (∃ v, ∀ c, c.reads = reads →
      readWord scope cast address c = .ok (v, { c with reads := reads + 1 })) ∨
    ∃ after, ∀ c, c.reads = reads →
      readWord scope cast address c = .error ⟨.memoryUnreadable address cast.readSize, after⟩ := by
  rcases hmemory : scope.memory with _ | memory
  · exact .inr ⟨reads, fun c hreads => by simp only [readWord, hmemory, Cursor.fail, hreads]⟩
  · rcases hread : memory.readAfter reads address cast.readSize with error | bytes
    · exact .inr ⟨reads + 1, fun c hreads => by
        simp only [readWord, hmemory, hreads, hread, Cursor.fail]⟩
    · exact .inl ⟨UInt32.ofNat (ofLittleEndian bytes), fun c hreads => by
        simp only [readWord, hmemory, hreads, hread]⟩

/-- A word that nobody asks for is not read. -/
theorem tracks_readWord (cast : Cast) (skipping : Bool) {address address' : UInt32}
    (halike : t.Alike address address') (hwent : ∀ reads, Went scope c { c' with reads })
    (hfails : ∀ reads, FailsFrom scope Deep c ⟨.memoryUnreadable address cast.readSize, reads⟩) :
    Tracks t (Went scope c) (FailsFrom scope Deep c)
      (if skipping then .ok (0, c') else readWord scope cast address c')
      (if t.skips skipping then .ok (0, t.place c')
        else readWord scope cast address' (t.place c')) := by
  cases skipping with
  | true =>
      rw [t.skips_true]
      exact .reached (fun _ => rfl) (hwent c'.reads)
  | false =>
      rcases t with ⟨distance, _ | before, deeper⟩
      · cases halike rfl
        show Tracks _ _ _ (readWord scope cast address c')
          (readWord scope cast address (Rereading.place ⟨distance, none, deeper⟩ c'))
        rcases readWord_cases scope cast address c'.reads with ⟨v, hv⟩ | ⟨after, herror⟩
        · rw [hv c' rfl, hv (Rereading.place _ c') rfl]
          exact .reached (c := { c' with reads := c'.reads + 1 }) (fun _ => rfl) (hwent _)
        · rw [herror c' rfl, herror (Rereading.place _ c') rfl]
          exact .failed (hfails after) (.inl rfl)
      · show Tracks _ _ _ (readWord scope cast address c')
          (.ok (0, Rereading.place ⟨distance, some before, deeper⟩ c'))
        rcases readWord_cases scope cast address c'.reads with ⟨v, hv⟩ | ⟨after, herror⟩
        · rw [hv c' rfl]
          exact .reached (c := { c' with reads := c'.reads + 1 }) nofun (hwent _)
        · rw [herror c' rfl]
          exact .lacking (hfails after) rfl nofun (.reached (fun _ => rfl) (hwent c'.reads))

/-- A value that is looked up by its name is missed only where it counts. -/
theorem tracks_found {error : ExpressionError} (hname : error.isOfName = true) (skipping : Bool)
    (value : Option UInt32) (f : UInt32 → UInt32) (hwent : Went scope c c') :
    Tracks t (Went scope c) (FailsFrom scope Deep c)
      (do let v ← found skipping c error value; return (f v, c'))
      (do let v ← found (t.skips skipping) (t.place c) error value; return (f v, t.place c')) := by
  have hreached : ∀ v, Tracks t (Went scope c) (FailsFrom scope Deep c) (.ok (f v, c'))
      (.ok (f v, t.place c')) := fun v => .reached (fun _ => rfl) hwent
  have hfails : FailsFrom scope Deep c ⟨error, c.reads⟩ := by
    cases error <;> first | exact ⟨trivial, fun _ => rfl, nofun⟩ | cases hname
  rcases value with _ | v
  · cases skipping with
    | true =>
        rw [t.skips_true]
        exact hreached 0
    | false =>
        rcases t with ⟨distance, _ | before, deeper⟩
        · have hfailed : Tracks ⟨distance, none, deeper⟩ (Went scope c) (FailsFrom scope Deep c)
              (.error ⟨error, c.reads⟩) (.error ⟨error.shift distance, c.reads⟩) :=
            .failed hfails (.inl rfl)
          have hsame : error.shift distance = error := by
            cases error <;> first | rfl | cases hname
          rwa [hsame] at hfailed
        · have hvalue : error.isOfValue = true := by
            cases error <;> first | rfl | cases hname
          exact .lacking hfails hvalue nofun (hreached 0)
  · exact hreached v

/-- What is made of the expression between brackets that come before a name.  It does not
matter how the expression was read, only what came of it. -/
def embeddedResult (scope : Scope) (skipping relative : Bool) (c : Cursor) (close : Nat)
    (content : List Char) : Evaluated → Evaluated
  | .ok (value, inner) => .ok (embed scope relative value, c.behind close inner)
  | .error ⟨.unknownCharacter character offset, reads⟩ =>
    if looksLikeName content then do
      let value ← found skipping c (.symbolNotFound (String.ofList content)) none
      return (embed scope relative value, c.behind close c)
    else .error ⟨.unknownCharacter character offset, reads⟩
  | .error failure => .error failure

theorem embeddedExpression_eq {operand : Operand} (skipping relative : Bool) (c : Cursor)
    (close : Nat) (content : List Char) :
    embeddedExpression scope operand skipping relative c close content =
      embeddedResult scope skipping relative c close content
        (enclosed operand skipping (c.inside close)) := by
  rw [embeddedExpression]
  rcases enclosed operand skipping (c.inside close) with ⟨error, before⟩ | ⟨value, inner⟩
  · cases error <;> rfl
  · rfl

theorem tracks_embeddedResult (skipping relative : Bool) {close : Nat} (content : List Char)
    (hname : Went scope c (c.behind close c)) {r r' : Evaluated}
    (h : Tracks t (fun reached => Went scope c (c.behind close reached))
      (FailsFrom scope Deep c) r r') :
    Tracks t (Went scope c) (FailsFrom scope Deep c)
      (embeddedResult scope skipping relative c close content r)
      (embeddedResult scope (t.skips skipping) relative (t.place c) close content r') := by
  induction h with
  | reached halike hwent =>
      simp only [embeddedResult, t.place_behind]
      exact .reached (fun hnone => congrArg _ (halike hnone)) hwent
  | @failed error reads hfails hboth =>
      cases error with
      | unknownCharacter character offset =>
          -- The text may still be a name, and then it counts whether that is known.
          simp only [embeddedResult, ExpressionError.shift, t.place_behind]
          split
          · exact tracks_found rfl skipping none (embed scope relative) hname
          · exact .failed hfails hboth
      | _ => exact .failed hfails hboth
  | @lacking failure _ _ hfails hvalue hskipped _ ih =>
      have hfailure : embeddedResult scope skipping relative c close content (.error failure) =
          .error failure := by
        rcases failure with ⟨error, reads⟩
        cases error <;> first | rfl | cases hvalue
      rw [hfailure]
      exact .lacking hfails hvalue hskipped ih
  | tooDeep hfails hdeeper => exact .tooDeep hfails hdeeper

theorem tracks_atom {first : Char} (hpeek : c.peek? = some first) :
    Tracks t (Went scope c) (FailsFrom scope Deep c) (atom scope c first)
      (atom scope (t.place c) first) := by
  have hrest : (t.place c).rest = c.rest := rfl
  rw [atom, atom, hrest]
  rcases hregister : scope.registers.bind fun registers =>
      (Register.atStart? c.rest).map registers.get with _ | value
  · rcases hliteral : Literal.atStart? scope.moduleBase c.rest with _ | ⟨value, length⟩
    · exact tracks_unknown (.refl c) hpeek
    · simp only [t.place_advance]
      exact .reached (fun _ => rfl) (went_advance (Literal.takes_atStart? hliteral))
  · obtain ⟨registers, -, hfound⟩ := Option.bind_eq_some_iff.mp hregister
    obtain ⟨register, hstart, -⟩ := Option.map_eq_some_iff.mp hfound
    simp only [t.place_advance]
    exact .reached (fun _ => rfl) (went_advance (Register.takes_atStart? hstart))

/-! ## Operands -/

section Operands

variable {levels : Nat} {operand again : Operand}
  (h : Walks scope t (ReachesFrom levels) operand again)
include h

theorem tracks_dereference (cast : Cast) (skipping : Bool) (hpeek : c.peek? = some '[') :
    Tracks t (Went scope c)
      (FailsFrom scope (fun text => ReachesIn levels (placesBetween '[' ']' text)) c)
      (dereference scope operand cast skipping c)
      (dereference scope again cast (t.skips skipping) (t.place c)) := by
  have hrest : (t.place c).rest = c.rest := rfl
  rw [dereference, dereference, hrest]
  by_cases hregisters : scope.registers.isNone = true
  · rw [if_pos hregisters, if_pos hregisters]
    exact tracks_fail (.refl c) rfl (c.marks_here hpeek List.mem_cons_self)
  · rw [if_neg hregisters, if_neg hregisters]
    have hpresent : scope.registers ≠ none := fun hnone =>
      hregisters (Option.isNone_iff_eq_none.mpr hnone)
    rcases hclose : Cursor.closing? '[' ']' 0 c.rest with _ | close
    · exact tracks_fail (.refl c) rfl (c.marks_here hpeek (by decide))
    · obtain ⟨inner, hpair⟩ := Cursor.pair_of_closing? (by decide) hpeek hclose
      simp only [t.place_inside]
      refine (tracks_between h (by decide) hclose hpair skipping).bind
        fun address address' reached halike _ => ?_
      simp only [t.place_behind]
      refine tracks_readWord cast skipping halike
        (fun reads => went_word hpresent hpair { reached with reads }) fun reads => ?_
      exact ⟨trivial, fun hnot => hnot.elim (absurd hpair.mem) (absurd · hpresent), nofun⟩

theorem tracks_embedded (skipping relative : Bool) {opens closes : Char}
    (hopens : opens = if relative then '[' else '<')
    (hcloses : closes = if relative then ']' else '>') (hpeek : c.peek? = some opens) :
    Tracks t (Went scope c)
      (FailsFrom scope (fun text => ReachesIn levels (placesBetween opens closes text)) c)
      (embedded scope operand skipping relative c)
      (embedded scope again (t.skips skipping) relative (t.place c)) := by
  have hrest : (t.place c).rest = c.rest := rfl
  have hinside : ∀ close, ((t.place c).inside close).rest = (c.inside close).rest := fun _ => rfl
  have hpick : (if relative then ('[', ']') else ('<', '>')) = (opens, closes) := by
    cases relative <;> rw [hopens, hcloses] <;> rfl
  have hkind : (opens, closes) ∈ bracketKinds := by
    cases relative <;> rw [hopens, hcloses] <;> decide
  have hne : opens ≠ closes := by
    cases relative <;> rw [hopens, hcloses] <;> decide
  have hmark : opens ∈ ['[', ']', '<', '>'] := by
    cases relative <;> rw [hopens] <;> decide
  simp only [embedded, hpick, hrest, hinside, t.place_behind]
  rcases hclose : Cursor.closing? opens closes 0 c.rest with _ | close
  · exact tracks_fail (.refl c) rfl (c.marks_here hpeek hmark)
  · obtain ⟨inner, hpair⟩ := Cursor.pair_of_closing? hne hpeek hclose
    have hname : Went scope c (c.behind close c) := went_name hopens hcloses hpair
    dsimp only
    split
    · exact tracks_found rfl skipping _ (embed scope relative) hname
    split
    · exact tracks_found rfl skipping _ id hname
    split
    · exact .reached (fun _ => rfl) hname
    · rw [embeddedExpression_eq, embeddedExpression_eq, t.place_inside]
      exact tracks_embeddedResult skipping relative _ hname
        (tracks_between h hkind hclose hpair skipping)

theorem tracks_primary (skipping : Bool) (hcast : Cast.atStart? c.rest = none) :
    Tracks t (Went scope c) (FailsFrom scope (fun text => ReachesIn levels (beneath text)) c)
      (primary scope operand skipping c) (primary scope again (t.skips skipping) (t.place c)) := by
  have hpeek' : (t.place c).peek? = c.peek? := rfl
  -- What nests between the brackets that open here nests beneath this place.
  have hbeneath : ∀ {opens closes : Char} {r r' : Evaluated}, (opens, closes) ∈ bracketKinds →
      c.peek? = some opens →
      Tracks t (Went scope c)
        (FailsFrom scope (fun text => ReachesIn levels (placesBetween opens closes text)) c) r r' →
      Tracks t (Went scope c)
        (FailsFrom scope (fun text => ReachesIn levels (beneath text)) c) r r' :=
    fun hkind hpeek hread => hread.from (.refl c) fun hreaches =>
      (beneath_of_bracket hkind hcast hpeek).symm ▸ hreaches
  rw [primary, primary, hpeek']
  split
  · rename_i hpeek
    exact tracks_fail (.refl c) rfl (.inl (Cursor.ending_of_peek? hpeek))
  · rename_i hpeek
    exact hbeneath (by decide) hpeek (tracks_group h skipping hpeek)
  · rename_i hpeek
    split
    · exact hbeneath (by decide) hpeek (tracks_dereference h .u32 skipping hpeek)
    · exact hbeneath (by decide) hpeek (tracks_embedded h skipping true rfl rfl hpeek)
  · rename_i hpeek
    exact hbeneath (by decide) hpeek (tracks_embedded h skipping false rfl rfl hpeek)
  · rename_i hpeek
    exact tracks_atom hpeek

theorem tracks_applied (f : UInt32 → UInt32) (skipping : Bool) {sign : Char}
    (hsign : sign ∈ signs) (hpeek : c.peek? = some sign) (hcast : Cast.atStart? c.rest = none) :
    Tracks t (Went scope c) (FailsFrom scope (fun text => ReachesIn levels (beneath text)) c)
      (applied operand f skipping c) (applied again f (t.skips skipping) (t.place c)) := by
  obtain ⟨rest, hrest⟩ := List.head?_eq_some_iff.mp hpeek
  have htoken : isTokenChar sign = true := by
    simp only [signs, List.mem_cons, List.not_mem_nil, or_false] at hsign
    rcases hsign with rfl | rfl | rfl | rfl <;> decide
  have hmark : Went scope c (c.advance 1) := went_advance (hrest ▸ takes_sign htoken rest)
  have hbeneath : beneath c.rest = [(c.advance 1).rest] := beneath_of_sign hsign hcast hpeek
  rw [applied, applied, t.place_advance]
  refine Tracks.bind ((h skipping (c.advance 1)).from hmark fun hreaches => ?_)
    fun v w c' halike hwent => .reached (fun hnone => congrArg f (halike hnone)) hwent
  exact hbeneath ▸ ⟨_, List.mem_singleton_self _, hreaches⟩

theorem tracks_cast {cast : Cast} {length : Nat} (skipping : Bool)
    (hcast : Cast.atStart? c.rest = some (cast, length)) :
    Tracks t (Went scope c) (FailsFrom scope (fun text => ReachesIn levels (beneath text)) c)
      (operandAt scope operand skipping c)
      (operandAt scope again (t.skips skipping) (t.place c)) := by
  have hcast' : Cast.atStart? (t.place c).rest = some (cast, length) := hcast
  let behind := (c.advance length).skipSpace
  have hwent : Went scope c behind :=
    (went_advance (Cast.takes_atStart? hcast)).trans (went_skipSpace _)
  have hplace : ((t.place c).advance length).skipSpace = t.place behind := by
    rw [t.place_advance, t.place_skipSpace]
  have hpeek : (t.place behind).peek? = behind.peek? := rfl
  have hrest : (c.rest.drop length).dropWhile Cursor.isSpace = behind.rest :=
    (c.advance length).skipSpace_rest.symm
  have hconverts : ∀ v w c', t.Alike v w → Went scope c c' →
      Tracks t (Went scope c) (FailsFrom scope (fun text => ReachesIn levels (beneath text)) c)
        (.ok (cast.convert v, c')) (.ok (cast.convert w, t.place c')) :=
    fun v w c' halike hwent => .reached (fun hnone => congrArg cast.convert (halike hnone)) hwent
  simp only [operandAt, hcast, hcast', hplace, hpeek]
  by_cases hopens : behind.peek? = some '['
  · have hbeneath : beneath c.rest = placesBetween '[' ']' behind.rest := by
      simp only [beneath, hcast, hrest]
      exact if_pos hopens
    simp only [behind, if_pos hopens]
    refine Tracks.bind ((tracks_dereference h cast skipping hopens).from hwent fun hreaches => ?_)
      hconverts
    exact hbeneath ▸ hreaches
  · have hbeneath : beneath c.rest = [behind.rest] := by
      simp only [beneath, hcast, hrest]
      exact if_neg hopens
    simp only [behind, if_neg hopens]
    refine Tracks.bind ((h skipping behind).from hwent fun hreaches => ?_) hconverts
    exact hbeneath ▸ ⟨_, List.mem_singleton_self _, hreaches⟩

theorem tracks_operandAt (skipping : Bool) (c : Cursor) :
    Tracks t (Went scope c) (FailsFrom scope (fun text => ReachesIn levels (beneath text)) c)
      (operandAt scope operand skipping c)
      (operandAt scope again (t.skips skipping) (t.place c)) := by
  rcases hcast : Cast.atStart? c.rest with _ | ⟨cast, length⟩
  · have hcast' : Cast.atStart? (t.place c).rest = none := hcast
    have hpeek' : (t.place c).peek? = c.peek? := rfl
    simp only [operandAt, hcast, hcast', hpeek']
    split
    · rename_i hpeek
      exact tracks_applied h _ skipping (by decide : '!' ∈ signs) hpeek hcast
    · rename_i hpeek
      exact tracks_applied h _ skipping (by decide : '~' ∈ signs) hpeek hcast
    · rename_i hpeek
      exact tracks_applied h _ skipping (by decide : '-' ∈ signs) hpeek hcast
    · rename_i hpeek
      exact tracks_applied h _ skipping (by decide : '+' ∈ signs) hpeek hcast
    · exact tracks_primary h skipping hcast
  · exact tracks_cast h skipping hcast

end Operands

/-- Every operand is tracked by one that has as many levels or more, wherever it is read and
whether it counts or not.  It takes a text that is nested as deeply to run out of levels. -/
theorem walks_operand (scope : Scope) (t : Rereading) (levels : Nat) :
    Walks scope t (ReachesFrom levels) (operand scope levels)
      (operand scope (levels + t.deeper)) := by
  induction levels with
  | zero =>
      intro skipping c
      have hfails : FailsFrom scope (ReachesFrom 0) c ⟨.nestingTooDeep c.offset, c.reads⟩ :=
        ⟨Nat.le_add_right _ _, fun _ => rfl, fun _ _ _ _ => Nat.zero_le _⟩
      -- Where the first reading runs out of levels, a deeper second one may go on.
      rcases hdeeper : t.deeper with _ | deeper
      · exact .failed hfails (.inr rfl)
      · exact .tooDeep hfails (hdeeper ▸ Nat.succ_pos deeper)
  | succ levels ih =>
      intro skipping c
      rw [Nat.add_right_comm, operand_succ, operand_succ, t.place_skipSpace]
      exact (tracks_operandAt ih skipping c.skipSpace).from (went_skipSpace c) fun hreaches =>
        ReachesIn.succ (Cursor.skipSpace_rest c ▸ hreaches)

theorem passesAll_operand (scope : Scope) (levels : Nat) : PassesAll scope (operand scope levels) :=
  (walks_operand scope {} levels).mono fun _ _ => trivial

/-! ## Whole texts -/

/-- What stands between brackets, and whole texts, at any place. -/
theorem tracks_whole (scope : Scope) (t : Rereading) (levels : Nat) (skipping : Bool) (c : Cursor) :
    Tracks t (fun c' => Went scope c c' ∧ c'.rest = [])
      (FailsFrom scope (fun text => levels ≤ nesting text) c)
      (enclosed (operand scope levels) skipping c)
      (enclosed (operand scope (levels + t.deeper)) (t.skips skipping) (t.place c)) :=
  (tracks_enclosed (fun _ _ hsuffix hreaches => hreaches.of_suffix hsuffix)
    ((walks_operand scope t levels).mono fun _ => ReachesFrom.tails) skipping c).mono
    (fun _ hend => hend) fun _ hfails => hfails.from (.refl c) ReachesIn.le_nesting

theorem went_run {text : List Char} {value : UInt32} {reached : Cursor}
    (h : run scope text = .ok (value, reached)) :
    Went scope ⟨0, text, 0⟩ reached ∧ reached.rest = [] :=
  (tracks_whole scope {} nestingLimit false ⟨0, text, 0⟩).goes h

theorem failsFrom_run {text : List Char} {failure : Failure}
    (h : run scope text = .error failure) :
    FailsFrom scope (fun text => nestingLimit ≤ nesting text) ⟨0, text, 0⟩ failure :=
  (tracks_whole scope {} nestingLimit false ⟨0, text, 0⟩).fails h

/-- Without registers no memory is read: `[...]` embeds an address then, and behind a cast it is an
error. -/
theorem reads_evaluateCounting {scope : Scope} (hregisters : scope.registers = none)
    (text : List Char) (stop : Option Char) : (evaluateCounting scope text stop).2 = 0 := by
  rw [evaluateCounting]
  rcases hrun : run scope (window stop text) with failure | ⟨value, reached⟩
  · exact (failsFrom_run hrun).unread (.inr hregisters)
  · exact (went_run hrun).1.unread hregisters

end Expression
end CodePatch
