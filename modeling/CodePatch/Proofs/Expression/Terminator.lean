/-
# Text behind the terminator

A text is read up to its terminator as if it ended there.  The evaluator takes
the part in front first, so for it this is a matter of course; the reader of a
buffer has the rest of the text before its eyes, and even decodes it where it
reports a character that it does not know.  Both come to the same
(`evaluateCounting_encoded`), so neither depends on what stands behind.

Where the terminator is found is a matter of brackets.  In a text that is well
nested in parentheses and square brackets it is found where it first stands
outside of them (`before?_append`); a closing bracket never does
(`not_standsOutside_of_closes`), which is why an address that is well nested can
be read up to the bracket that closes it.
-/
import CodePatch.Proofs.Expression.Bounds

namespace CodePatch.Expression

open Text (IsAscii encoded asByte)

/-! ## Well nested text -/

/-- The brackets that nest. -/
def bracketPairs : List (Char × Char) :=
  [('(', ')'), ('[', ']')]

/-- Every parenthesis and square bracket is closed by one of its kind, and closes one. -/
inductive WellNested : List Char → Prop where
  | nil : WellNested []
  | plain {c : Char} {rest : List Char} (noBracket : c ∉ ['(', ')', '[', ']'])
      (behind : WellNested rest) : WellNested (c :: rest)
  | pair {opens closes : Char} {inner rest : List Char} (kind : (opens, closes) ∈ bracketPairs)
      (between : WellNested inner) (behind : WellNested rest) :
      WellNested (opens :: (inner ++ closes :: rest))

/-- `stop` stands in `text` outside of all brackets: they are closed in front of it. -/
def StandsOutside (stop : Char) (text : List Char) : Prop :=
  ∃ front behind, text = front ++ stop :: behind ∧ WellNested front

/-- The number of brackets that are open behind `c`, if `depth` are before it. -/
def openBehind (c : Char) (depth : Int) : Int :=
  if c = '(' ∨ c = '[' then depth + 1
  else if c = ')' ∨ c = ']' then depth - 1
  else depth

theorem openBehind_of_plain {c : Char} (h : c ∉ ['(', ')', '[', ']']) (depth : Int) :
    openBehind c depth = depth := by
  simp only [List.mem_cons, List.not_mem_nil, or_false, not_or] at h
  obtain ⟨hround, hround', hsquare, hsquare'⟩ := h
  rw [openBehind, if_neg (not_or.mpr ⟨hround, hsquare⟩), if_neg (not_or.mpr ⟨hround', hsquare'⟩)]

theorem openBehind_of_pair {opens closes : Char} (h : (opens, closes) ∈ bracketPairs)
    (depth : Int) :
    openBehind opens depth = depth + 1 ∧ openBehind closes depth = depth - 1 := by
  simp only [bracketPairs, List.mem_cons, List.not_mem_nil, or_false, Prod.mk.injEq] at h
  rcases h with ⟨rfl, rfl⟩ | ⟨rfl, rfl⟩ <;> exact ⟨rfl, rfl⟩

/-- The number of brackets that are open behind `text`, if `depth` are before it. -/
def openAfter (depth : Int) (text : List Char) : Int :=
  text.foldl (fun depth c => openBehind c depth) depth

theorem openAfter_append (depth : Int) (front behind : List Char) :
    openAfter depth (front ++ behind) = openAfter (openAfter depth front) behind :=
  List.foldl_append

namespace WellNested

theorem openAfter_eq {text : List Char} (h : WellNested text) (depth : Int) :
    openAfter depth text = depth := by
  induction h generalizing depth with
  | nil => rfl
  | plain hplain _ ih =>
      show openAfter (openBehind _ depth) _ = depth
      rw [openBehind_of_plain hplain, ih]
  | pair hkind _ _ ihbetween ihbehind =>
      show openAfter (openBehind _ depth) _ = depth
      rw [(openBehind_of_pair hkind depth).1, openAfter_append, ihbetween]
      show openAfter (openBehind _ (depth + 1)) _ = depth
      rw [(openBehind_of_pair hkind _).2, ihbehind, Int.add_sub_cancel]

theorem le_openAfter {text front behind : List Char} (h : WellNested text)
    (hsplit : text = front ++ behind) (depth : Int) : depth ≤ openAfter depth front := by
  induction h generalizing front behind depth with
  | nil =>
      rw [(List.append_eq_nil_iff.mp hsplit.symm).1]
      exact Int.le_refl depth
  | plain hplain _ ih =>
      rcases front with _ | ⟨first, front⟩
      · exact Int.le_refl depth
      · obtain ⟨rfl, hrest⟩ := List.cons.inj hsplit
        show depth ≤ openAfter (openBehind _ depth) front
        rw [openBehind_of_plain hplain]
        exact ih hrest depth
  | pair hkind hbetween _ ihbetween ihbehind =>
      rcases front with _ | ⟨first, front⟩
      · exact Int.le_refl depth
      · obtain ⟨rfl, hrest⟩ := List.cons.inj hsplit
        show depth ≤ openAfter (openBehind _ depth) front
        rw [(openBehind_of_pair hkind depth).1]
        rcases List.append_eq_append_iff.mp hrest with ⟨more, rfl, hmore⟩ | ⟨more, hinner, -⟩
        · -- The cut is behind the pair's inner text, in front of its closing bracket or behind.
          rw [openAfter_append, hbetween.openAfter_eq]
          rcases more with _ | ⟨closes, more⟩
          · exact Int.le_add_of_nonneg_right (by decide)
          · obtain ⟨rfl, hbehind⟩ := List.cons.inj hmore
            show depth ≤ openAfter (openBehind _ (depth + 1)) more
            rw [(openBehind_of_pair hkind _).2, Int.add_sub_cancel]
            exact ihbehind hbehind depth
        · exact Int.le_trans (Int.le_add_of_nonneg_right (by decide)) (ihbetween hinner (depth + 1))

end WellNested

/-- A closing bracket never stands outside in well nested text: it would close none. -/
theorem not_standsOutside_of_closes {opens closes : Char} (hkind : (opens, closes) ∈ bracketPairs)
    {text : List Char} (h : WellNested text) : ¬ StandsOutside closes text := by
  rintro ⟨front, behind, rfl, hfront⟩
  have hle : 0 ≤ openAfter 0 (front ++ [closes]) :=
    h.le_openAfter (by rw [List.append_assoc]; rfl) 0
  have hbelow : openAfter 0 (front ++ [closes]) = -1 := by
    rw [openAfter_append, hfront.openAfter_eq]
    exact (openBehind_of_pair hkind 0).2
  omega

/-! ## Where the terminator is found -/

theorem before?_cons {stop c : Char} {depth : Int} (h : ¬ (c = stop ∧ depth ≤ 0))
    (rest : List Char) :
    before? stop depth (c :: rest) = (before? stop (openBehind c depth) rest).map (c :: ·) := by
  rw [before?, if_neg h]
  rfl

/-- The search passes over well nested text in which the terminator does not stand outside;
inside of brackets it may stand anywhere. -/
theorem before?_append {stop : Char} {text : List Char} (h : WellNested text) {depth : Int}
    (hdepth : 0 ≤ depth) (houtside : depth = 0 → ¬ StandsOutside stop text) (rest : List Char) :
    before? stop depth (text ++ rest) = (before? stop depth rest).map (text ++ ·) := by
  induction h generalizing depth rest with
  | nil =>
      exact (Option.map_id' (x := before? stop depth rest)).symm
  | @plain c more hplain _ ih =>
      have hpass : ¬ (c = stop ∧ depth ≤ 0) := by
        rintro ⟨rfl, hle⟩
        exact houtside (Int.le_antisymm hle hdepth) ⟨[], more, rfl, .nil⟩
      have hfurther : depth = 0 → ¬ StandsOutside stop more := by
        rintro hzero ⟨front, behind, rfl, hfront⟩
        exact houtside hzero ⟨c :: front, behind, rfl, .plain hplain hfront⟩
      rw [List.cons_append, before?_cons hpass, openBehind_of_plain hplain,
        ih hdepth hfurther, Option.map_map]
      rfl
  | @pair opens closes inner more hkind hbetween _ ihbetween ihbehind =>
      have hpass : ¬ (opens = stop ∧ depth ≤ 0) := by
        rintro ⟨rfl, hle⟩
        exact houtside (Int.le_antisymm hle hdepth) ⟨[], inner ++ closes :: more, rfl, .nil⟩
      have hdeeper : 0 ≤ depth + 1 := by omega
      have hpass' : ¬ (closes = stop ∧ depth + 1 ≤ 0) := by omega
      have hfurther : depth = 0 → ¬ StandsOutside stop more := by
        rintro hzero ⟨front, behind, rfl, hfront⟩
        refine houtside hzero
          ⟨opens :: (inner ++ closes :: front), behind, ?_, .pair hkind hbetween hfront⟩
        simp only [List.cons_append, List.append_assoc]
      rw [List.cons_append, List.append_assoc, before?_cons hpass, (openBehind_of_pair hkind _).1,
        ihbetween hdeeper (by omega), List.cons_append, before?_cons hpass',
        (openBehind_of_pair hkind _).2, Int.add_sub_cancel, ihbehind hdepth hfurther,
        Option.map_map, Option.map_map, Option.map_map]
      refine congrArg (Option.map · _) (funext fun front => ?_)
      simp only [Function.comp_apply, List.cons_append, List.append_assoc]

theorem window_append {stop : Char} {text : List Char} (h : WellNested text)
    (houtside : ¬ StandsOutside stop text) (suffix : List Char) :
    window (some stop) (text ++ stop :: suffix) = text := by
  have hfound : before? stop 0 (stop :: suffix) = some [] := if_pos ⟨rfl, Int.le_refl 0⟩
  rw [window, before?_append h (Int.le_refl 0) (fun _ => houtside), hfound]
  exact List.append_nil text

/-! ## The text behind it -/

theorem front_of_terminator? {stop : Char} (hstop : IsAscii stop) {text : List Char}
    {position : Nat} (h : Buffer.terminator? (asByte stop) (encoded text) = some position) :
    ∃ front behind, text = front ++ stop :: behind ∧
      encoded front = (encoded text).take position ∧ window (some stop) text = front := by
  rw [Buffer.terminator?, Buffer.terminatorFrom_encoded hstop] at h
  obtain ⟨front, hfront, hposition⟩ := Option.map_eq_some_iff.mp h
  obtain ⟨behind, htext⟩ := Buffer.before?_prefix hfront
  have hwindow : window (some stop) text = front := by
    rw [window, hfront]
    rfl
  refine ⟨front, behind, htext, ?_, hwindow⟩
  rw [htext, Text.encoded_append, ← hposition, Nat.zero_add, ← Text.length_encoded, List.take_left]

/-- The evaluator takes the part in front of the terminator and reads that alone. -/
theorem evaluateCounting_window (scope : Scope) (text : List Char) (stop : Option Char) :
    evaluateCounting scope text stop = evaluateCounting scope (window stop text) none := rfl

theorem encoded_window (scope : Scope) {stop : Char} (hstop : IsAscii stop) (text : List Char) :
    Buffer.evaluateCounting scope (encoded text) (some (asByte stop)) =
      Buffer.evaluateCounting scope (encoded (window (some stop) text)) none := by
  have hstop' : ∀ mark ∈ some stop, IsAscii mark := fun mark hmark =>
    Option.mem_some.mp hmark ▸ hstop
  have hnone : ∀ mark ∈ (none : Option Char), IsAscii mark := nofun
  have hfront := Buffer.evaluateCounting_encoded scope (window (some stop) text) hnone
  rw [← evaluateCounting_window scope text (some stop)] at hfront
  exact (Buffer.evaluateCounting_encoded scope text hstop').trans hfront.symm

/-- What stands behind the terminator does not count, to the reader of a buffer that holds all of
the text no more than to the evaluator: the value, the offset reached, the error and the number
of reads are those of the part in front.  In front of any suffix, a well nested text in which
the terminator does not stand outside of brackets is read as it is alone. -/
theorem text_behind_terminator_does_not_count (scope : Scope) {stop : Char}
    (hstop : IsAscii stop) :
    (∀ text position, Buffer.terminator? (asByte stop) (encoded text) = some position →
      ∃ front behind, text = front ++ stop :: behind ∧
        encoded front = (encoded text).take position ∧
        Buffer.evaluateCounting scope (encoded text) (some (asByte stop)) =
          Buffer.evaluateCounting scope ((encoded text).take position) none ∧
        evaluateCounting scope text (some stop) = evaluateCounting scope front none) ∧
    ∀ text suffix, WellNested text → ¬ StandsOutside stop text →
      Buffer.evaluateCounting scope (encoded (text ++ stop :: suffix)) (some (asByte stop)) =
          Buffer.evaluateCounting scope (encoded text) none ∧
        evaluateCounting scope (text ++ stop :: suffix) (some stop) =
          evaluateCounting scope text none := by
  refine ⟨fun text position hfound => ?_, fun text suffix hnested houtside => ?_⟩
  · obtain ⟨front, behind, htext, htake, hwindow⟩ := front_of_terminator? hstop hfound
    refine ⟨front, behind, htext, htake, ?_, ?_⟩
    · rw [← htake, ← hwindow]
      exact encoded_window scope hstop text
    · rw [← hwindow]
      exact evaluateCounting_window scope text (some stop)
  · have hwindow := window_append hnested houtside suffix
    refine ⟨?_, ?_⟩
    · rw [encoded_window scope hstop, hwindow]
    · rw [evaluateCounting_window, hwindow]

/-- What stands behind the bracket could not even be read. -/
theorem sample_text_behind_terminator :
    IsAscii ']' ∧
      Buffer.evaluateCounting { symbols := {}, options := {} } (encoded "1+(2)]é((".toList)
          (some (asByte ']')) = (.ok ⟨3, 5⟩, 0) := by
  have hstop : IsAscii ']' := by decide
  have hkind : ('[', ']') ∈ bracketPairs := by decide
  have hinner : WellNested ['2'] := .plain (by decide) .nil
  have hnested : WellNested "1+(2)".toList :=
    .plain (by decide) (.plain (by decide) (@WellNested.pair '(' ')' _ _ (by decide) hinner .nil))
  have hread := (text_behind_terminator_does_not_count { symbols := {}, options := {} } hstop).2
    "1+(2)".toList "é((".toList hnested
    (not_standsOutside_of_closes hkind hnested)
  exact ⟨hstop, hread.1.trans rfl⟩

end CodePatch.Expression
