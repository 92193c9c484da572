/-
# Reading stays in bounds

The reader of a buffer reads operands as the evaluator does, at any depth
(`meets_unary`): the levels that are left to the evaluator are those that the
reader has not gone down yet.  So the whole text comes out the same, and nothing
is ever read out of bounds.

What an error says of the part up to the limit is said of the whole text then: a
place in it is an offset in bytes, below the limit, and the character that the
error speaks of stands there (`PointsInto`).
-/
import CodePatch.Proofs.Expression.Meeting
import CodePatch.Proofs.Memory.Contents
import CodePatch.Proofs.Text.Trim

namespace CodePatch.Expression.Buffer

open Text (IsAscii encoded asByte asChars utf8Size)

variable {text : List Char} {start now : Place} {c : Cursor}

/-! ## Brackets and names -/

section Operands

variable {depth : Nat} {operand : Operand} {read : Reader UInt32} {scope : Scope}

/-- The reader narrows its limit to the closing bracket, and goes on behind it. -/
theorem meets_enclosed (hread : MeetsAll text depth operand read)
    (hpasses : PassesAll scope operand) (h : Mirrors text start c) (hdepth : start.depth = depth)
    {opens closes : Char} (hopens : IsAscii opens) (hcloses : IsAscii closes) {close : Nat}
    {inner : List Char} (hpair : c.Pair opens closes close inner) :
    Meets text Prod.fst (fun read => c.behind close read.2) start
      (Expression.enclosed operand start.skipping (c.inside close))
      (enclosed (encoded text) read (c.offset + utf8Size (c.rest.take close)) start) := by
  let enter (place : Place) : Place :=
    { place with position := place.position + 1, limit := c.offset + utf8Size (c.rest.take close) }
  let between : Reader UInt32 := do
    let value ← expression (encoded text) read
    expectLimit (encoded text)
    return value
  have hinside : Mirrors text (enter start) (c.inside close) := h.inside hopens hpair rfl rfl rfl
  have hbetween : Meets text Prod.fst Prod.snd (enter start)
      (Expression.enclosed operand start.skipping (c.inside close)) (between (enter start)) := by
    refine (meets_expression hread hpasses (enter start) _ hinside hdepth).bind
      fun value now _ hkeeps hnow => ?_
    exact (meets_expectLimit hnow).bind fun reached next _ _ hnext => .reached (.refl next) hnext
  have henter := bind_modify enter between start
  generalize Expression.enclosed operand start.skipping (c.inside close) = r at hbetween ⊢
  generalize between (enter start) = x at hbetween henter
  cases hbetween with
  | reached keeps here =>
      rw [enclosed, restoring_ok henter]
      exact .reached ⟨rfl, keeps.skipping, keeps.depth⟩ (h.behind hcloses hpair rfl rfl here.reads)
  | failed keeps reads =>
      rw [enclosed, restoring_error henter]
      exact .failed ⟨rfl, keeps.skipping, keeps.depth⟩ reads

theorem meets_group (hread : MeetsAll text depth operand read) (hpasses : PassesAll scope operand)
    (h : Mirrors text start c) (hdepth : start.depth = depth) (hpeek : c.peek? = some '(') :
    Meets text Prod.fst Prod.snd start (Expression.group operand start.skipping c)
      (group (encoded text) read start) := by
  have hmatching := matching_of_mirrors (.unmatchedGrouping c.offset) h (by decide : IsAscii '(')
    (by decide : IsAscii ')') hpeek
  rw [group, bind_get, h.position, Expression.group]
  rcases hclose : Cursor.closing? '(' ')' 0 c.rest with _ | close
  · rw [hclose] at hmatching
    rw [run_bind_error hmatching]
    exact .failed (.refl start) h.reads
  · rw [hclose] at hmatching
    obtain ⟨inner, hpair⟩ := Cursor.pair_of_closing? (by decide) hpeek hclose
    rw [run_bind hmatching]
    exact (meets_enclosed hread hpasses h hdepth (by decide) (by decide) hpair).map
      (fun _ => rfl) (fun _ => rfl)

variable (scope)

theorem meets_readWord (h : Mirrors text now c) (cast : Cast) (address : UInt32) :
    Meets text Prod.fst Prod.snd now (Expression.readWord scope cast address c)
      (readWord scope cast address now) := by
  unfold Expression.readWord readWord
  rcases scope.memory with _ | memory
  · exact meets_fail h _
  · dsimp only
    rw [bind_get, h.reads]
    have hset : (set { now with reads := c.reads + 1 } : Reader PUnit) now =
        .ok ⟨⟩ { now with reads := c.reads + 1 } := rfl
    rw [run_bind hset]
    have hafter : Mirrors text { now with reads := c.reads + 1 } { c with reads := c.reads + 1 } :=
      ⟨h.around, h.position, h.limit, rfl⟩
    rcases hread : memory.readAfter c.reads address cast.readSize with error | bytes
    · exact .failed ⟨rfl, rfl, rfl⟩ rfl
    · dsimp only
      rw [if_pos (Memory.length_of_readAfter hread)]
      exact .reached ⟨rfl, rfl, rfl⟩ hafter

theorem meets_dereference (hread : MeetsAll text depth operand read)
    (hpasses : PassesAll scope operand) (h : Mirrors text start c) (hdepth : start.depth = depth)
    (hpeek : c.peek? = some '[')
    (cast : Cast) {explicit : Bool} (hexplicit : explicit = true ∨ scope.registers.isSome = true) :
    Meets text Prod.fst Prod.snd start (Expression.dereference scope operand cast start.skipping c)
      (dereference (encoded text) scope read cast explicit start) := by
  have hmatching := matching_of_mirrors (.unmatchedValueBrackets c.offset) h
    (by decide : IsAscii '[') (by decide : IsAscii ']') hpeek
  rw [dereference, bind_get, h.position, Expression.dereference]
  by_cases hnone : scope.registers.isNone = true
  · have hexplicit : explicit = true := by
      rcases hexplicit with hexplicit | hsome
      · exact hexplicit
      · rw [Option.isNone_iff_eq_none.mp hnone] at hsome
        cases hsome
    rw [if_pos hnone, if_pos hnone, if_pos hexplicit]
    exact meets_fail h _
  · rw [if_neg hnone, if_neg hnone]
    rcases hclose : Cursor.closing? '[' ']' 0 c.rest with _ | close
    · rw [hclose] at hmatching
      rw [run_bind_error hmatching]
      exact .failed (.refl start) h.reads
    · rw [hclose] at hmatching
      obtain ⟨inner, hpair⟩ := Cursor.pair_of_closing? (by decide) hpeek hclose
      rw [run_bind hmatching]
      refine (meets_enclosed hread hpasses h hdepth (by decide) (by decide) hpair).bind
        fun address now _ hkeeps hnow => ?_
      rw [bind_get, ← hkeeps.skipping]
      dsimp only
      split
      · exact .reached (.refl now) hnow
      · exact meets_readWord scope hnow cast address.1

theorem meets_found {next : Cursor} (h : Mirrors text now next) (hreads : next.reads = c.reads)
    (error : ExpressionError) (value : Option UInt32) :
    Meets text id (fun _ => next) now (Expression.found now.skipping c error value)
      (found error value now) := by
  unfold Expression.found found
  rw [bind_get]
  cases value with
  | some v => exact .reached (.refl now) h
  | none =>
      dsimp only
      split
      · exact .reached (.refl now) h
      · exact .failed (.refl now) (h.reads.trans hreads)

theorem meets_lookup {next : Cursor} (h : Mirrors text now next) (hreads : next.reads = c.reads)
    (error : ExpressionError) (value : Option UInt32) :
    Meets text Prod.fst Prod.snd now
      (do
        let value ← Expression.found now.skipping c error value
        return (value, next))
      (found error value now) :=
  (meets_found h hreads error value).map (fun _ => rfl) fun _ => rfl

theorem meets_name {next : Cursor} (h : Mirrors text now next) (hreads : next.reads = c.reads)
    (f : UInt32 → UInt32) (error : ExpressionError) (value : Option UInt32) :
    Meets text Prod.fst Prod.snd now
      (do
        let value ← Expression.found now.skipping c error value
        return (f value, next))
      ((do
        let value ← found error value
        return f value : Reader UInt32) now) :=
  (meets_found h hreads error value).bind fun _ later _ _ hlater => .reached (.refl later) hlater

theorem not_mem_of_looksLikeName {inner : List Char} (h : looksLikeName (Text.trim inner) = true) :
    '[' ∉ inner := by
  intro hmem
  obtain ⟨front, back, hinner, hfront, hback⟩ := Text.padded_trim inner
  have hblank : Text.isBlank '[' ≠ true := by decide
  rw [hinner, List.mem_append, List.mem_append] at hmem
  rcases hmem with (hmem | hmem) | hmem
  · exact hblank (hfront _ hmem)
  · rcases hname : Text.trim inner with _ | ⟨first, rest⟩
    · rw [hname] at hmem
      cases hmem
    · rw [hname, looksLikeName, Bool.and_eq_true, List.all_eq_true] at h
      rw [hname] at hmem
      rcases List.mem_cons.mp hmem with rfl | hrest
      · exact absurd h.1 (by decide)
      · exact absurd (h.2 _ hrest) (by decide)
  · exact hblank (hback _ hmem)

theorem position_of_enclosed {input : List UInt8} {close : Nat} {stop : Stop}
    (h : enclosed input read close start = .error stop now) : now.position = close + 1 := by
  rw [enclosed, restoring] at h
  split at h
  · cases h
  · cases h
    rfl

section Names

variable {content : List Char} {value : UInt32}

theorem orName_ok (h : read start = .ok value now) : orName content read start = .ok value now := by
  rw [orName, h]

/-- A name is looked up where the reading of it as an expression has failed. -/
theorem orName_symbol {character : Char} {offset : Nat} (hname : looksLikeName content = true)
    (h : read start = .error (.failed (.unknownCharacter character offset)) now) :
    orName content read start = found (.symbolNotFound (String.ofList content)) none now := by
  rw [orName, h]
  exact if_pos hname

theorem orName_failed {error : ExpressionError}
    (hnot : looksLikeName content = false ∨
      ∀ character offset, error ≠ .unknownCharacter character offset)
    (h : read start = .error (.failed error) now) :
    orName content read start = .error (.failed error) now := by
  rw [orName, h]
  cases error with
  | unknownCharacter character offset =>
      rcases hnot with hnot | hnot
      · exact if_neg (hnot ▸ Bool.false_ne_true)
      · exact absurd rfl (hnot character offset)
  | _ => rfl

end Names

theorem meets_embeddedExpression (hread : MeetsAll text depth operand read)
    (hpasses : PassesAll scope operand) (h : Mirrors text start c) (hdepth : start.depth = depth)
    {opens closes : Char} (hopens : IsAscii opens) (hcloses : IsAscii closes) {close : Nat}
    {inner : List Char} (hpair : c.Pair opens closes close inner) (relative : Bool) :
    Meets text Prod.fst Prod.snd start
      (embeddedExpression scope operand start.skipping relative c close (Text.trim inner))
      ((do
        let value ← orName (Text.trim inner) (enclosed (encoded text) read
          (c.offset + utf8Size (c.rest.take close)))
        return embed scope relative value : Reader UInt32) start) := by
  have hbetween := meets_enclosed hread hpasses h hdepth hopens hcloses hpair
  have hpassed := hpasses.enclosed start.skipping (c.inside close)
  rw [embeddedExpression_eq]
  generalize hresult : enclosed (encoded text) read
    (c.offset + utf8Size (c.rest.take close)) start = x at hbetween
  generalize Expression.enclosed operand start.skipping (c.inside close) = r at hbetween hpassed ⊢
  cases hbetween with
  | reached keeps here =>
      rw [run_bind (orName_ok hresult)]
      exact .reached keeps here
  | @failed failure now keeps reads =>
      obtain ⟨error, spent⟩ := failure
      cases error with
      | unknownCharacter character offset =>
          rcases hname : looksLikeName (Text.trim inner) with _ | _
          · simp only [embeddedResult, hname]
            rw [run_bind_error (orName_failed (.inl hname) hresult)]
            exact .failed keeps reads
          · -- No bracket stands in a name, so nothing was read from memory on the way.
            have hunread : spent = c.reads := (hpassed.fails rfl).unread
              (.inl (hpair.inside_rest.symm ▸ not_mem_of_looksLikeName hname))
            have hnow : Mirrors text now (c.behind close c) :=
              h.behind hcloses hpair (position_of_enclosed hresult) keeps.limit
                (reads.trans hunread)
            simp only [embeddedResult, if_pos hname]
            rw [bind_congr_at (orName_symbol hname hresult), ← keeps.skipping]
            exact (meets_name hnow rfl (embed scope relative) _ none).after keeps
      | _ =>
          rw [run_bind_error (orName_failed (.inr fun _ _ heq => by cases heq) hresult)]
          exact .failed keeps reads

theorem meets_embedded (hread : MeetsAll text depth operand read)
    (hpasses : PassesAll scope operand) (h : Mirrors text start c) (hdepth : start.depth = depth)
    (relative : Bool) {opens : Char}
    (hopens : opens = if relative then '[' else '<') (hpeek : c.peek? = some opens) :
    Meets text Prod.fst Prod.snd start
      (Expression.embedded scope operand start.skipping relative c)
      (embedded (encoded text) scope read opens start) := by
  obtain ⟨closes, hpick, hcloses, hrelative, hne, hascii, hascii'⟩ :
      ∃ closes, (if relative then ('[', ']') else ('<', '>')) = (opens, closes) ∧
        (if opens = '[' then ']' else '>') = closes ∧ (opens == '[') = relative ∧
        opens ≠ closes ∧ IsAscii opens ∧ IsAscii closes := by
    cases relative with
    | true => exact hopens ▸ ⟨']', rfl, rfl, rfl, by decide, by decide, by decide⟩
    | false => exact hopens ▸ ⟨'>', rfl, rfl, rfl, by decide, by decide, by decide⟩
  have hmatching := matching_of_mirrors (.unmatchedValueBrackets c.offset) h hascii hascii' hpeek
  unfold Expression.embedded embedded
  simp only [hpick]
  rw [bind_get, h.position, hcloses]
  rcases hclose : Cursor.closing? opens closes 0 c.rest with _ | close
  · rw [hclose] at hmatching
    rw [run_bind_error hmatching]
    exact .failed (.refl start) h.reads
  · rw [hclose] at hmatching
    obtain ⟨inner, hpair⟩ := Cursor.pair_of_closing? hne hpeek hclose
    rw [run_bind hmatching, run_bind (slice_of_pair h hascii hpair), Text.decoded?_encoded]
    simp only [hpair.inside_rest, hrelative, Option.getD_some]
    let behind : Place := { start with position := c.offset + utf8Size (c.rest.take close) + 1 }
    have hkeeps : Keeps start behind := ⟨rfl, rfl, rfl⟩
    have hbehind : Mirrors text behind (c.behind close c) := h.behind hascii' hpair rfl rfl h.reads
    have hsame : (c.behind close c).reads = c.reads := rfl
    rcases caveIn? (Text.trim inner) with _ | cave
    · rcases Text.after? optionMark (Text.trim inner) with _ | option
      · rcases scope.symbols.resolve? scope.memory (String.ofList (Text.trim inner)) with
          _ | address
        · exact meets_embeddedExpression scope hread hpasses h hdepth hascii hascii' hpair relative
        · exact .reached hkeeps hbehind
      · exact (meets_lookup hbehind hsame _ _).after hkeeps
    · exact (meets_name hbehind hsame (embed scope relative) _ _).after hkeeps

/-! ## Operands -/

theorem meets_atom (h : Mirrors text start c) {first : Char} (hfirst : c.peek? = some first)
    (byte : Char) :
    Meets text Prod.fst Prod.snd start (Expression.atom scope c first)
      (atom (encoded text) scope byte start) := by
  have hliteral : Literal.atStart? scope.moduleBase (asChars (encoded c.rest)) =
      Literal.atStart? scope.moduleBase c.rest := Literal.atStart?_blurred _ _
  rw [Expression.atom, atom, run_bind (rest_of_mirrors h), Text.decoded?_encoded, hliteral]
  simp only [Option.getD_some]
  split
  · rename_i value hvalue
    obtain ⟨registers, -, hregister⟩ := Option.bind_eq_some_iff.mp hvalue
    obtain ⟨register, hstart, -⟩ := Option.map_eq_some_iff.mp hregister
    obtain ⟨now, hadvance, hkeeps, hnow⟩ :=
      advance_of_mirrors h (Register.takes_atStart? hstart)
    simp only [hvalue]
    rw [run_bind hadvance]
    exact .reached hkeeps hnow
  · rename_i hnone
    simp only [hnone]
    split
    · rename_i value length hfound
      obtain ⟨now, hadvance, hkeeps, hnow⟩ := advance_of_mirrors h (Literal.takes_atStart? hfound)
      simp only [hfound]
      rw [run_bind hadvance]
      exact .reached hkeeps hnow
    · rename_i hnothing
      simp only [hnothing]
      exact meets_unknown h hfirst byte

theorem meets_primary (hread : MeetsAll text depth operand read)
    (hpasses : PassesAll scope operand) :
    MeetsAll text depth (Expression.primary scope operand) (primary (encoded text) scope read) := by
  intro start c h hdepth
  obtain ⟨seen, hpeek, hsees⟩ := sees_of_mirrors h
  rw [Expression.primary, primary, bind_get, run_bind hpeek, h.position]
  split
  · rename_i hnone
    rw [hsees.none.mpr hnone]
    exact meets_fail h _
  · rename_i hopens
    rw [(hsees.mark _ (by decide)).mpr hopens]
    exact meets_group hread hpasses h hdepth hopens
  · rename_i hopens
    rw [(hsees.mark _ (by decide)).mpr hopens]
    by_cases hregisters : scope.registers.isSome = true
    · simp only [if_pos hregisters]
      exact meets_dereference scope hread hpasses h hdepth hopens .u32 (.inr hregisters)
    · simp only [if_neg hregisters]
      exact meets_embedded scope hread hpasses h hdepth true rfl hopens
  · rename_i hopens
    rw [(hsees.mark _ (by decide)).mpr hopens]
    exact meets_embedded scope hread hpasses h hdepth false rfl hopens
  · rename_i first hround hsquare hangle hfirst
    have hactual : ∀ mark, IsAscii mark → seen = some mark → first = mark := fun mark hmark heq =>
      Option.some.inj (hfirst.symm.trans ((hsees.mark mark hmark).mp heq))
    split
    · rw [hsees.none.mp rfl] at hfirst
      cases hfirst
    · exact absurd (hactual _ (by decide) rfl) hround
    · exact absurd (hactual _ (by decide) rfl) hsquare
    · exact absurd (hactual _ (by decide) rfl) hangle
    · exact meets_atom scope h hfirst _

theorem meets_applied (hread : MeetsAll text depth operand read) (h : Mirrors text start c)
    (hdepth : start.depth = depth) (f : UInt32 → UInt32) {sign : Char}
    (hpeek : c.peek? = some sign) (hsign : isTokenChar sign = true) :
    Meets text Prod.fst Prod.snd start (Expression.applied operand f start.skipping c)
      (applied (encoded text) read f start) := by
  obtain ⟨others, hrest⟩ := List.head?_eq_some_iff.mp hpeek
  obtain ⟨now, hadvance, hkeeps, hnow⟩ := advance_of_mirrors h (hrest ▸ takes_sign hsign others)
  refine .after ?_ hkeeps
  rw [Expression.applied, applied, run_bind hadvance, ← hkeeps.skipping]
  exact (hread now _ hnow (hkeeps.depth.trans hdepth)).bind fun value next _ _ hnext =>
    .reached (.refl next) hnext

theorem meets_cast (hread : MeetsAll text depth operand read) (hpasses : PassesAll scope operand)
    (h : Mirrors text start c) (hdepth : start.depth = depth) {cast : Cast} {length : Nat}
    (hcast : Cast.atStart? c.rest = some (cast, length)) :
    Meets text Prod.fst Prod.snd start
      (do
        let c := (c.advance length).skipSpace
        let (raw, c) ← if c.peek? = some '[' then
            Expression.dereference scope operand cast start.skipping c
          else operand start.skipping c
        return (cast.convert raw, c))
      ((do
        advance (encoded text) length
        skipBlanks (encoded text)
        let raw ← if (← peek (encoded text)) = some '[' then
            dereference (encoded text) scope read cast true
          else read
        return cast.convert raw : Reader UInt32) start) := by
  obtain ⟨behind, hadvance, hkeeps, hbehind⟩ := advance_of_mirrors h (Cast.takes_atStart? hcast)
  obtain ⟨next, hskip, hkeeps', hnext⟩ := skipBlanks_of_mirrors hbehind
  obtain ⟨seen, hpeek, hsees⟩ := sees_of_mirrors hnext
  have hkept : Keeps start next := hkeeps.trans hkeeps'
  have hdepth' : next.depth = depth := hkept.depth.trans hdepth
  have hsame : seen = some '[' ↔ (c.advance length).skipSpace.peek? = some '[' :=
    hsees.mark _ (by decide)
  refine .after ?_ hkept
  rw [run_bind hadvance, run_bind hskip, run_bind hpeek, ← hkept.skipping]
  dsimp only
  by_cases hopens : (c.advance length).skipSpace.peek? = some '['
  · rw [if_pos hopens, if_pos (hsame.mpr hopens)]
    exact (meets_dereference scope hread hpasses hnext hdepth' hopens cast (.inl rfl)).bind
      fun value later _ _ hlater => .reached (.refl later) hlater
  · rw [if_neg hopens, if_neg (mt hsame.mp hopens)]
    exact (hread next _ hnext hdepth').bind
      fun value later _ _ hlater => .reached (.refl later) hlater

theorem meets_operandAt (hread : MeetsAll text depth operand read)
    (hpasses : PassesAll scope operand) (h : Mirrors text start c) (hdepth : start.depth = depth) :
    Meets text Prod.fst Prod.snd start
      (Expression.operandAt scope operand start.skipping c.skipSpace)
      (operandAt (encoded text) scope read start) := by
  obtain ⟨now, hskip, hkeeps, hnow⟩ := skipBlanks_of_mirrors h
  refine .after ?_ hkeeps
  have hdepth' : now.depth = depth := hkeeps.depth.trans hdepth
  have hcast :
      Cast.atStart? (asChars (encoded c.skipSpace.rest)) = Cast.atStart? c.skipSpace.rest :=
    Cast.atStart?_blurred _
  rw [Expression.operandAt, operandAt, run_bind hskip, run_bind (rest_of_mirrors hnow), hcast,
    ← hkeeps.skipping]
  rcases hfound : Cast.atStart? c.skipSpace.rest with _ | ⟨cast, length⟩
  · obtain ⟨seen, hpeek, hsees⟩ := sees_of_mirrors hnow
    have hsign : ∀ mark, IsAscii mark → c.skipSpace.peek? = some mark → seen = some mark :=
      fun mark hmark => (hsees.mark mark hmark).mpr
    dsimp only
    rw [run_bind hpeek]
    split
    · rename_i hnot
      rw [hsign _ (by decide) hnot]
      exact meets_applied hread hnow hdepth' _ hnot (by decide)
    · rename_i hcomplement
      rw [hsign _ (by decide) hcomplement]
      exact meets_applied hread hnow hdepth' _ hcomplement (by decide)
    · rename_i hnegate
      rw [hsign _ (by decide) hnegate]
      exact meets_applied hread hnow hdepth' _ hnegate (by decide)
    · rename_i hplus
      rw [hsign _ (by decide) hplus]
      exact meets_applied hread hnow hdepth' _ hplus (by decide)
    · rename_i hnot hcomplement hnegate hplus
      split
      · exact absurd ((hsees.mark _ (by decide)).mp rfl) hnot
      · exact absurd ((hsees.mark _ (by decide)).mp rfl) hcomplement
      · exact absurd ((hsees.mark _ (by decide)).mp rfl) hnegate
      · exact absurd ((hsees.mark _ (by decide)).mp rfl) hplus
      · exact meets_primary scope hread hpasses now _ hnow hdepth'
  · exact meets_cast scope hread hpasses hnow hdepth' hfound

end Operands

/-- An operand at any depth, with the levels that are left there.  The induction is on the
levels: each takes the reader one deeper. -/
theorem meets_unary (scope : Scope) (levels : Nat) :
    ∀ depth, depth + levels = nestingLimit →
      MeetsAll text depth (operand scope levels) (unary (encoded text) scope (levels + 1)) := by
  induction levels with
  | zero =>
      intro depth hdepth start c h hstart
      rw [unary, bind_get, if_pos (by omega), h.position]
      exact meets_fail h _
  | succ levels ih =>
      intro depth hdepth start c h hstart
      let enter (place : Place) : Place := { place with depth := place.depth + 1 }
      have hinside : Mirrors text (enter start) c := ⟨h.around, h.position, h.limit, h.reads⟩
      have hdeeper : (enter start).depth = depth + 1 := congrArg (· + 1) hstart
      have hbetween := meets_operandAt scope (ih (depth + 1) (by omega))
        (passesAll_operand scope levels) hinside hdeeper
      have henter := bind_modify enter
        (operandAt (encoded text) scope (unary (encoded text) scope (levels + 1))) start
      rw [unary, bind_get, if_neg (by omega), operand_succ]
      show Meets text Prod.fst Prod.snd start
        (Expression.operandAt scope (operand scope levels) (enter start).skipping c.skipSpace) _
      generalize Expression.operandAt scope (operand scope levels) (enter start).skipping
        c.skipSpace = r at hbetween ⊢
      generalize operandAt (encoded text) scope (unary (encoded text) scope (levels + 1))
        (enter start) = x at hbetween henter
      cases hbetween with
      | reached keeps here =>
          rw [restoring_ok henter]
          exact .reached ⟨keeps.limit, keeps.skipping, by rw [keeps.depth]; rfl⟩
            ⟨here.around, here.position, here.limit, here.reads⟩
      | failed keeps reads =>
          rw [restoring_error henter]
          exact .failed ⟨keeps.limit, keeps.skipping, by rw [keeps.depth]; rfl⟩ reads

/-! ## Whole texts -/

theorem before?_prefix {stop : Char} {text front : List Char} {depth : Int}
    (h : before? stop depth text = some front) : ∃ behind, text = front ++ stop :: behind := by
  induction text generalizing depth front with
  | nil => cases h
  | cons c cs ih =>
      rw [before?] at h
      split at h
      · rename_i hstop
        cases h
        exact ⟨cs, by rw [hstop.1]; rfl⟩
      · obtain ⟨rest, hrest, rfl⟩ := Option.map_eq_some_iff.mp h
        obtain ⟨behind, rfl⟩ := ih hrest
        exact ⟨behind, rfl⟩

theorem exists_behind_window (stop : Option Char) (text : List Char) :
    ∃ behind, text = window stop text ++ behind := by
  rcases stop with _ | stop
  · exact ⟨[], (List.append_nil text).symm⟩
  · rw [window]
    rcases hfront : before? stop 0 text with _ | front
    · exact ⟨[], (List.append_nil text).symm⟩
    · obtain ⟨behind, htext⟩ := before?_prefix hfront
      exact ⟨stop :: behind, htext⟩

theorem slice_of_mirrors (h : Mirrors text now c) :
    ∃ bytes, slice (encoded text) 0 now.position now = .ok bytes now := by
  obtain ⟨before, after, htext, hoffset⟩ := h.around
  have hslice := slice_encoded [] before (c.rest ++ after) now
  rw [List.nil_append, ← htext] at hslice
  refine ⟨encoded before, ?_⟩
  rw [h.position, hoffset]
  exact (congrArg (slice (encoded text) 0 · now) (Nat.zero_add _).symm).trans hslice

theorem meets_whole (scope : Scope) {front : List Char} (h : Mirrors text start ⟨0, front, 0⟩)
    (hcounts : start.skipping = false) (hdepth : start.depth = 0) :
    Meets text (fun read => (⟨read.1, read.2.offset⟩ : Evaluation)) Prod.snd start
      (run scope front) (whole (encoded text) scope start) := by
  have hexpression := meets_expression (meets_unary scope nestingLimit 0 (Nat.zero_add _))
    (passesAll_operand scope nestingLimit) start _ h hdepth
  rw [hcounts] at hexpression
  refine hexpression.bind fun value now _ _ hnow => ?_
  refine (meets_expectLimit hnow).bind fun reached next _ _ hnext => ?_
  obtain ⟨bytes, hslice⟩ := slice_of_mirrors hnext
  rw [bind_get, run_bind hslice, hnext.position]
  exact .reached (.refl next) hnext

/-- The reader of the buffer comes to what the evaluator comes to. -/
theorem evaluateCounting_encoded (scope : Scope) (text : List Char) {stop : Option Char}
    (hstop : ∀ mark ∈ stop, IsAscii mark) :
    evaluateCounting scope (encoded text) (stop.map asByte) =
      ((Expression.evaluateCounting scope text stop).1.mapError .failed,
        (Expression.evaluateCounting scope text stop).2) := by
  obtain ⟨behind, htext⟩ := exists_behind_window stop text
  have hstart : Mirrors text { limit := limit (stop.map asByte) (encoded text) }
      ⟨0, window stop text, 0⟩ :=
    ⟨⟨[], behind, htext, rfl⟩, rfl,
      (limit_encoded stop hstop text).trans (Nat.zero_add _).symm, rfl⟩
  have hwhole := meets_whole scope hstart rfl rfl
  rw [evaluateCounting, Expression.evaluateCounting]
  generalize run scope (window stop text) = r at hwhole ⊢
  generalize whole (encoded text) scope _ = x at hwhole ⊢
  cases hwhole with
  | reached keeps here => exact congrArg (Prod.mk _) here.reads
  | failed keeps reads => exact congrArg (Prod.mk _) reads

end CodePatch.Expression.Buffer

namespace CodePatch

/-! ## Where errors point -/

/-- The character `c` of `text` starts at byte `offset`. -/
def Text.StandsAt (text : List Char) (offset : Nat) (c : Char) : Prop :=
  ∃ before behind, text = before ++ c :: behind ∧ offset = utf8Size before

/-- One of `marks` stands at `offset`, in front of `limit`. -/
def Text.MarkedBelow (text : List Char) (limit offset : Nat) (marks : List Char) : Prop :=
  offset < limit ∧ ∃ mark ∈ marks, StandsAt text offset mark

/-- The error points, no further than `limit`, at what it says. -/
def ExpressionError.PointsInto (text : List Char) (limit : Nat) : ExpressionError → Prop
  | .unmatchedGrouping offset => Text.MarkedBelow text limit offset ['(', ')']
  | .unmatchedValueBrackets offset => Text.MarkedBelow text limit offset ['[', ']', '<', '>']
  | .unknownCharacter character offset => Text.MarkedBelow text limit offset [character]
  | .unexpectedEnd offset => offset = limit ∨ Text.MarkedBelow text limit offset [')', ']', '>']
  | .dereferenceWithoutRegisters offset => Text.MarkedBelow text limit offset ['[']
  | .divisionByZero offset => Text.MarkedBelow text limit offset ['/', '%']
  | .nestingTooDeep offset => offset ≤ limit
  | .optionNotFound _ | .caveNotFound _ | .symbolNotFound _ | .memoryUnreadable _ _ => True

namespace Expression

theorem pointsInto_of_pointsFrom {error : ExpressionError} {front : List Char}
    (h : error.PointsFrom ⟨0, front, 0⟩) (behind : List Char) :
    error.PointsInto (front ++ behind) (Text.utf8Size front) := by
  have hmarked : ∀ {offset marks}, (⟨0, front, 0⟩ : Cursor).Marks offset marks →
      Text.MarkedBelow (front ++ behind) (Text.utf8Size front) offset marks := by
    rintro offset marks ⟨before, mark, more, hfront, hmark, hoffset⟩
    have hpos := mark.utf8Size_pos
    have hsplit : front = before ++ mark :: more := hfront
    have hbefore : offset = Text.utf8Size before := hoffset.trans (Nat.zero_add _)
    refine ⟨?_, mark, hmark, before, more ++ behind, ?_, hbefore⟩
    · rw [hbefore, hsplit, Text.utf8Size_append, Text.utf8Size_cons]
      omega
    · rw [hsplit, List.append_assoc]
      rfl
  have hending : (⟨0, front, 0⟩ : Cursor).ending = Text.utf8Size front := Nat.zero_add _
  cases error with
  | unexpectedEnd offset => exact h.imp (fun heq => heq.trans hending) hmarked
  | nestingTooDeep offset => exact hending ▸ h
  | unmatchedGrouping offset => exact hmarked h
  | unmatchedValueBrackets offset => exact hmarked h
  | unknownCharacter character offset => exact hmarked h
  | dereferenceWithoutRegisters offset => exact hmarked h
  | divisionByZero offset => exact hmarked h
  | _ => trivial

/-- Reading stays in bounds and tells true places.  Over the bytes of any text, up to any ASCII
terminator, no index or slice is out of range, no slice cuts a character, nothing is counted
below zero, and the steps suffice: what comes out is what `evaluate` says, and never a crash.
A value is there only once all is read up to the limit.  An error names an offset up to the
limit, and what it says stands there does stand there. -/
theorem reading_stays_in_bounds (scope : Scope) (text : String) (stop : Option Char)
    (hstop : ∀ mark ∈ stop, Text.IsAscii mark) :
    let bytes := Text.utf8 text
    let limit := Buffer.limit (stop.map Text.asByte) bytes
    Buffer.evaluateCounting scope bytes (stop.map Text.asByte) =
        ((evaluateCounting scope text.toList stop).1.mapError Buffer.Stop.failed,
          (evaluateCounting scope text.toList stop).2) ∧
      (∀ evaluation, evaluate scope text.toList stop = .ok evaluation →
        evaluation.cursor = limit) ∧
      ∀ error, evaluate scope text.toList stop = .error error →
        error.PointsInto text.toList limit := by
  intro bytes limit
  have hlimit : limit = Text.utf8Size (window stop text.toList) :=
    Buffer.limit_encoded stop hstop text.toList
  obtain ⟨behind, htext⟩ := Buffer.exists_behind_window stop text.toList
  refine ⟨Buffer.evaluateCounting_encoded scope text.toList hstop, ?_, ?_⟩
  · intro evaluation hok
    rw [evaluate, evaluateCounting] at hok
    rcases hrun : run scope (window stop text.toList) with failure | ⟨value, reached⟩
    · rw [hrun] at hok
      cases hok
    · rw [hrun] at hok
      cases hok
      obtain ⟨⟨⟨used, hpassed⟩, -⟩, hend⟩ := went_run hrun
      have hused : window stop text.toList = used ++ reached.rest := hpassed.rest
      rw [hend, List.append_nil] at hused
      rw [hlimit, hused]
      exact hpassed.offset.trans (Nat.zero_add _)
  · intro error herror
    rw [evaluate, evaluateCounting] at herror
    rcases hrun : run scope (window stop text.toList) with failure | ⟨value, reached⟩
    · rw [hrun] at herror
      cases herror
      have hpoints := pointsInto_of_pointsFrom (failsFrom_run hrun).points behind
      rwa [← htext, ← hlimit] at hpoints
    · rw [hrun] at herror
      cases herror

/-- The two bytes of a character beyond ASCII are read as one, in front of the terminator. -/
theorem sample_reading_stays_in_bounds :
    (∀ mark ∈ some ']', Text.IsAscii mark) ∧
      Buffer.evaluateCounting { symbols := {}, options := {} } (Text.utf8 "(2+é)]4")
        (some (Text.asByte ']')) = (.error (.failed (.unknownCharacter 'é' 3)), 0) := by
  have hstop : ∀ mark ∈ some ']', Text.IsAscii mark := by
    intro mark hmark
    cases hmark
    decide
  exact ⟨hstop, (reading_stays_in_bounds { symbols := {}, options := {} } "(2+é)]4" (some ']')
    hstop).1.trans rfl⟩

end Expression
end CodePatch
