/-
# A bracket that nothing closes

A field that starts with a bracket is a place in memory, and the bracket has to
be closed.  As an expression such a field is refused if it is not
(`evaluate_unclosed`).  `pointer` takes the bracket off and looks for the
closing one as a terminator, which is another search: it minds parentheses, and
if it finds nothing, all of the text counts.  So what comes of a bracket that
nothing closes is whatever the text behind it comes to (`pointer_of_bracket`).

The two searches differ in nothing that is read where a terminator is found.
An expression that is read to its end has as many opening as closing square
brackets (`even_of_run`), so the terminator behind it closes the bracket in
front; only between `<` and `>`, where names stand, may they be uneven.
-/
import CodePatch.Proofs.Breakpoint.Dereference

namespace CodePatch

/-- Up to any closing bracket of a text whose first brackets nothing closes, more are opened
than are closed. -/
theorem Cursor.count_lt_of_unclosed {opens closes : Char} (hne : opens ≠ closes)
    {front behind : List Char} {depth : Nat} (hdepth : 1 ≤ depth)
    (h : closing? opens closes depth (front ++ closes :: behind) = none) :
    front.count closes + 1 < front.count opens + depth := by
  induction front generalizing depth with
  | nil =>
      rw [List.nil_append, closing?, if_neg hne.symm, if_pos rfl] at h
      split at h
      · cases h
      · rw [List.count_nil, List.count_nil]
        omega
  | cons c front ih =>
      rw [List.cons_append, closing?] at h
      split at h
      · rename_i hopens
        have hcount := ih (Nat.le_add_left 1 depth) (Option.map_eq_none_iff.mp h)
        rw [hopens, List.count_cons_self, List.count_cons_of_ne hne]
        omega
      split at h
      · rename_i hcloses
        split at h
        · cases h
        · have hcount := ih (by omega) (Option.map_eq_none_iff.mp h)
          rw [hcloses, List.count_cons_self, List.count_cons_of_ne hne.symm]
          omega
      · rename_i hopens hcloses
        have hcount := ih hdepth (Option.map_eq_none_iff.mp h)
        rwa [List.count_cons_of_ne hopens, List.count_cons_of_ne hcloses]

namespace Expression

variable {scope : Scope} {inner : List Char}

/-- What is read to its end has as many opening as closing square brackets, names aside. -/
theorem even_of_run {text : List Char} {value : UInt32} {reached : Cursor}
    (h : run scope text = .ok (value, reached)) (hnames : '<' ∉ text) :
    text.count '[' = text.count ']' := by
  obtain ⟨⟨⟨used, hpassed⟩, -⟩, hend⟩ := went_run h
  have hused : text = used := by
    have hrest := hpassed.rest
    rwa [hend, List.append_nil] at hrest
  exact hused ▸ hpassed.even (hused ▸ hnames)

/-- A bracket is read as one, with the registers of a hit: it is neither a cast nor a sign. -/
theorem operandAt_bracket {operand : Operand} {skipping : Bool} {c : Cursor}
    (hregisters : scope.registers.isSome = true) (hrest : c.rest = '[' :: inner) :
    operandAt scope operand skipping c = dereference scope operand .u32 skipping c := by
  have hpeek : c.peek? = some '[' := by
    rw [Cursor.peek?, hrest]
    rfl
  have hcast : Cast.atStart? c.rest = none := by
    rw [hrest]
    rfl
  rw [operandAt, hcast]
  simp only [hpeek, primary, if_pos hregisters]
  rfl

/-- An expression whose first bracket nothing closes is refused at that bracket. -/
theorem evaluate_unclosed (hregisters : scope.registers.isSome = true)
    (h : Cursor.closing? '[' ']' 0 ('[' :: inner) = none) :
    evaluate scope ('[' :: inner) none = .error (.unmatchedValueBrackets 0) := by
  have hpresent : scope.registers.isNone = false := by
    rwa [Option.isNone_eq_false_iff]
  have hbracket : ∀ operand, dereference scope operand .u32 false ⟨0, '[' :: inner, 0⟩ =
      .error ⟨.unmatchedValueBrackets 0, 0⟩ := by
    intro operand
    rw [dereference, hpresent, if_neg Bool.false_ne_true, h]
    rfl
  have hoperand : operand scope nestingLimit false ⟨0, '[' :: inner, 0⟩ =
      .error ⟨.unmatchedValueBrackets 0, 0⟩ :=
    (operandAt_bracket hregisters rfl).trans (hbracket _)
  have hrun : run scope ('[' :: inner) = .error ⟨.unmatchedValueBrackets 0, 0⟩ := by
    rw [run, enclosed, expression, hoperand]
    rfl
  rw [evaluate, evaluateCounting, window, hrun]

end Expression

namespace Hit

open Expression (evaluate evaluateCounting before? window run)

variable {hit : Hit} {key : String} {inner : List Char}

theorem pointer_of_bracket (htext : hit.text? key = some ('[' :: inner)) :
    (hit.pointer key).1 =
      (evaluate hit.scope inner (some ']')).toOption.map fun e => .memory e.value := by
  simp only [pointer, htext, Register.ofName?_bracket, dereference, evaluate]
  rcases evaluateCounting hit.scope inner (some ']') with ⟨error | evaluation, reads⟩
  · rfl
  · rfl

theorem typed_of_no_pointer (h : (hit.pointer key).1 = none) (width : ValueWidth) :
    (hit.typed key width).1 = none := by
  rw [typed]
  rcases hpointer : hit.pointer key with ⟨location, after⟩
  rw [hpointer] at h
  cases h
  rfl

/-- Where a terminator is found and no name is in the way, a bracket that nothing closes names
no place. -/
theorem pointer_of_unclosed (htext : hit.text? key = some ('[' :: inner))
    (hunclosed : Cursor.closing? '[' ']' 0 ('[' :: inner) = none)
    (hfound : before? ']' 0 inner ≠ none) (hnames : '<' ∉ inner) :
    (hit.pointer key).1 = none := by
  obtain ⟨front, hfront⟩ := Option.ne_none_iff_exists'.mp hfound
  obtain ⟨behind, hinner⟩ := Expression.Buffer.before?_prefix hfront
  have hwindow : window (some ']') inner = front := by
    rw [window, hfront]
    rfl
  have hopen : Cursor.closing? '[' ']' 1 (front ++ ']' :: behind) = none := by
    rw [← hinner]
    rw [Cursor.closing?, if_pos rfl] at hunclosed
    exact Option.map_eq_none_iff.mp hunclosed
  have hcount := Cursor.count_lt_of_unclosed (by decide) (Nat.le_refl 1) hopen
  have hnames' : '<' ∉ front := fun hmem => hnames (hinner ▸ List.mem_append_left _ hmem)
  rw [pointer_of_bracket htext, evaluate, evaluateCounting, hwindow]
  rcases hrun : run hit.scope front with failure | ⟨value, reached⟩
  · rfl
  · have heven := Expression.even_of_run hrun hnames'
    omega

/-- What comes of a field that starts with a bracket that nothing closes.  The expression is
refused.  The place is what the text behind the bracket comes to, up to a terminator, and all of
it if there is none; without a place there is no value.  If there is a terminator, and no name in
brackets of its own, there is no place. -/
theorem unclosed_bracket_outcome (htext : hit.text? key = some ('[' :: inner))
    (hunclosed : Cursor.closing? '[' ']' 0 ('[' :: inner) = none) :
    evaluate hit.scope ('[' :: inner) none = .error (.unmatchedValueBrackets 0) ∧
      (hit.pointer key).1 = ((evaluate hit.scope inner (some ']')).toOption.map
        fun e => .memory e.value) ∧
      (before? ']' 0 inner = none →
        evaluate hit.scope inner (some ']') = evaluate hit.scope inner none) ∧
      ((hit.pointer key).1 = none → ∀ width, (hit.typed key width).1 = none) ∧
      (before? ']' 0 inner ≠ none → '<' ∉ inner →
        (hit.pointer key).1 = none ∧ ∀ width, (hit.typed key width).1 = none) := by
  refine ⟨Expression.evaluate_unclosed rfl hunclosed, pointer_of_bracket htext, fun hnone => ?_,
    typed_of_no_pointer, fun hfound hnames => ?_⟩
  · rw [evaluate, evaluateCounting, window, hnone]
    rfl
  · have hpointer := pointer_of_unclosed htext hunclosed hfound hnames
    exact ⟨hpointer, typed_of_no_pointer hpointer⟩

/-- A hit whose field `slot` is the given text. -/
def hitWithSlot (text : String) : Hit where
  name := "enter"
  address := 0x401000
  registers := { ebp := 0x1008 }
  config := .object [("slot", .string text)]
  symbols := {}
  options := {}
  bench := { memory := { mappings := [.ofBytes 0x1000 [0xFE] .readWrite] } }

/-- Parentheses may close where the bracket does not. -/
theorem hitWithSlot_uneven :
    (hitWithSlot "[([))]").text? "slot" = some "[([))]".toList ∧
      Cursor.closing? '[' ']' 0 "[([))]".toList = none ∧
      before? ']' 0 "([))]".toList ≠ none ∧
      ((hitWithSlot "[([))]").pointer "slot").1 = none ∧
      ((hitWithSlot "[([))]").typed "slot" .u8).1 = none := by
  have htext : (hitWithSlot "[([))]").text? "slot" = some ('[' :: "([))]".toList) := rfl
  have hunclosed : Cursor.closing? '[' ']' 0 ('[' :: "([))]".toList) = none := rfl
  have hfound : before? ']' 0 "([))]".toList ≠ none := by decide
  have hrejected := (unclosed_bracket_outcome htext hunclosed).2.2.2.2 hfound (by decide)
  exact ⟨htext, hunclosed, hfound, hrejected.1, hrejected.2 .u8⟩

/-- A bracket that nothing closes is refused in an expression, but taken for a place. -/
theorem location_of_unclosed_bracket :
    (hitWithSlot "[ebp-8").text? "slot" = some "[ebp-8".toList ∧
      evaluate (hitWithSlot "[ebp-8").scope "[ebp-8".toList none =
        .error (.unmatchedValueBrackets 0) ∧
      ((hitWithSlot "[ebp-8").pointer "slot").1 = some (.memory 0x1000) ∧
      ((hitWithSlot "[ebp-8").typed "slot" .u8).1 = some (.integer .u8 0xFE) :=
  ⟨rfl, rfl, rfl, rfl⟩

end Hit
end CodePatch
