/-
# Names between brackets

Where brackets embed an address, what is between them is tried as the name of a
code cave, as an option and as a bound name, in this order, and each has a
lookup of its own.  For a name that resolves it makes no difference which of
them finds it (`address_of_caveIn?`): the expression has the value that the
brackets make of its address (`evaluate_embedded`).

`Embeddable` lists what the name has to be for the brackets to hold all of it
and nothing else.  In square brackets the theorem needs a scope without
registers; with registers they read memory.
-/
import CodePatch.Proofs.Cave.Names
import CodePatch.Proofs.Expression.Reading

namespace CodePatch

/-- The brackets around a relative address, and around an absolute one. -/
def brackets (relative : Bool) : Char × Char :=
  if relative then ('[', ']') else ('<', '>')

/-- A text in the brackets of an address. -/
def inBrackets (relative : Bool) (text : List Char) : List Char :=
  (brackets relative).1 :: (text ++ [(brackets relative).2])

theorem trim_inBrackets (relative : Bool) (text : List Char) :
    Text.trim (inBrackets relative text) = inBrackets relative text := by
  have hblank : Text.isBlank (brackets relative).1 = false ∧
      Text.isBlank (brackets relative).2 = false := by
    cases relative <;> decide
  unfold Text.trim Text.trimEnd inBrackets
  rw [List.dropWhile_cons, hblank.1, if_neg Bool.false_ne_true, ← List.cons_append,
    List.reverse_append, List.reverse_singleton, List.singleton_append, List.dropWhile_cons,
    hblank.2, if_neg Bool.false_ne_true, List.reverse_cons, List.reverse_reverse]

/-- The characters that group, embed or add. -/
def marks : List Char := ['+', '(', ')', '[', ']', '<', '>']

/-- A name that brackets can hold: it is not empty, has no blanks around it and no
mark in it, and is not the name of an option. -/
structure Embeddable (name : List Char) : Prop where
  nonempty : name ≠ []
  trimmed : Text.trim name = name
  plain : ∀ c ∈ name, c ∉ marks
  address : Text.after? Expression.optionMark name = none

theorem Embeddable.ne {name : List Char} (h : Embeddable name) {mark : Char}
    (hmark : mark ∈ marks) : ∀ c ∈ name, c ≠ mark := by
  intro c hc heq
  subst heq
  exact h.plain c hc hmark

theorem brackets_mem_marks (relative : Bool) :
    (brackets relative).1 ∈ marks ∧ (brackets relative).2 ∈ marks ∧
      (brackets relative).1 ≠ (brackets relative).2 := by
  cases relative <;> decide

namespace Text

theorem eq_append_of_after? {token text rest : List Char} (h : after? token text = some rest) :
    text = token ++ rest := by
  unfold after? at h
  split at h
  · rename_i htake
    cases h
    calc text = text.take token.length ++ text.drop token.length :=
          (List.take_append_drop ..).symm
      _ = token ++ text.drop token.length := by rw [htake]
  · cases h

theorem splitFirst?_append {c : Char} (before behind : List Char) (h : c ∉ before) :
    splitFirst? c (before ++ c :: behind) = some (before, behind) := by
  induction before with
  | nil => exact if_pos rfl
  | cons first rest ih =>
      have hfirst : first ≠ c := fun heq => h (heq ▸ List.mem_cons_self)
      have hrest : c ∉ rest := fun hc => h (List.mem_cons_of_mem _ hc)
      rw [List.cons_append, splitFirst?, if_neg hfirst, ih hrest]
      rfl

end Text

namespace Cursor

theorem closing?_plain {opens closes : Char} (hne : opens ≠ closes) {text : List Char}
    (hopens : ∀ c ∈ text, c ≠ opens) (hcloses : ∀ c ∈ text, c ≠ closes) (rest : List Char) :
    closing? opens closes 0 (opens :: (text ++ closes :: rest)) = some (text.length + 1) := by
  have hclose : ∀ text : List Char, (∀ c ∈ text, c ≠ opens) → (∀ c ∈ text, c ≠ closes) →
      closing? opens closes 1 (text ++ closes :: rest) = some text.length := by
    intro text hopens hcloses
    induction text with
    | nil =>
        rw [List.nil_append, closing?, if_neg hne.symm, if_pos rfl, if_pos (Nat.le_refl 1)]
        rfl
    | cons c more ih =>
        rw [List.cons_append, closing?, if_neg (hopens c List.mem_cons_self),
          if_neg (hcloses c List.mem_cons_self),
          ih (fun d hd => hopens d (List.mem_cons_of_mem _ hd))
            (fun d hd => hcloses d (List.mem_cons_of_mem _ hd))]
        rfl
  rw [closing?, if_pos rfl, hclose text hopens hcloses]
  rfl

end Cursor

namespace Symbols

/-- A name behind the mark of code caves is no export's. -/
theorem resolve?_of_reserved {s : Symbols} {memory : Option Memory} {name : String}
    {module function : List Char}
    (hsplit : Text.splitFirst? ':' name.toList = some (module, function))
    (hreserved : reservedModules.contains (String.ofList module) = true) :
    s.resolve? memory name = s.get? name := by
  unfold resolve?
  cases s.get? name with
  | some address => rfl
  | none =>
      cases memory with
      | none => rfl
      | some m =>
          rw [hsplit]
          exact if_pos hreserved

/-- A code cave's name resolves to what the cave is bound to, whichever mark it is behind. -/
theorem address_of_caveIn? {s : Symbols} {memory : Option Memory} {name : String}
    {cave : List Char} (h : Expression.caveIn? name.toList = some cave) :
    s.get? (caveName (String.ofList cave)) = s.resolve? memory name := by
  unfold Expression.caveIn? at h
  cases hmark : Text.after? caveMark name.toList with
  | some found =>
      rw [hmark] at h
      cases h
      have htext := Text.eq_append_of_after? hmark
      have hname : caveName (String.ofList cave) = name := by
        rw [caveName, String.toList_ofList, ← htext, String.ofList_toList]
      have hsplit : Text.splitFirst? ':' (caveMark ++ cave) = some (['c', 'a', 'v', 'e'], cave) :=
        Text.splitFirst?_append ['c', 'a', 'v', 'e'] cave (by decide)
      rw [hname, resolve?_of_reserved (htext ▸ hsplit) (by decide)]
  | none =>
      rw [hmark] at h
      have htext := Text.eq_append_of_after? h
      have hsplit : Text.splitFirst? ':' (caveAlias ++ cave) =
          some (['c', 'o', 'd', 'e', 'c', 'a', 'v', 'e'], cave) :=
        Text.splitFirst?_append ['c', 'o', 'd', 'e', 'c', 'a', 'v', 'e'] cave (by decide)
      rw [resolve?_of_reserved (htext ▸ hsplit) (by decide), get?_caveName]
      simp only [get?, h]

end Symbols

namespace Expression

variable {scope : Scope}

theorem operandAt_inBrackets {operand : Operand} {skipping relative : Bool} {c : Cursor}
    {text : List Char} (hregisters : relative = true → scope.registers = none)
    (h : c.rest = inBrackets relative text) :
    operandAt scope operand skipping c = embedded scope operand skipping relative c := by
  have hpeek : c.peek? = some (brackets relative).1 := by rw [Cursor.peek?, h]; rfl
  have hcast : Cast.atStart? c.rest = none := by
    rw [h]
    cases relative <;> rfl
  rw [operandAt, hcast]
  cases relative with
  | true => 
    simp only [hpeek, brackets, if_true, primary, hregisters rfl, Option.isSome_none]
    rfl
  | false => 
    simp only [hpeek, brackets, primary]
    rfl

variable {name : String} {address : UInt32} {relative : Bool} {c : Cursor} {rest : List Char}

/-- A name between brackets is the address that it resolves to, as they embed it. -/
theorem embedded_name (hname : Embeddable name.toList)
    (hresolve : scope.symbols.resolve? scope.memory name = some address)
    (h : c.rest = inBrackets relative name.toList ++ rest) (operand : Operand) (skipping : Bool) :
    ∃ next, embedded scope operand skipping relative c = .ok (embed scope relative address, next) ∧
      next.rest = rest := by
  obtain ⟨hopens, hcloses, hne⟩ := brackets_mem_marks relative
  have hpair :
      c.rest = (brackets relative).1 :: (name.toList ++ (brackets relative).2 :: rest) := by
    rw [h, inBrackets, List.cons_append, List.append_assoc]
    rfl
  have hclose : Cursor.closing? (brackets relative).1 (brackets relative).2 0 c.rest =
      some (name.toList.length + 1) := by
    rw [hpair]
    exact Cursor.closing?_plain hne (hname.ne hopens) (hname.ne hcloses) rest
  have hcontent : Text.trim (c.inside (name.toList.length + 1)).rest = name.toList := by
    rw [inside_pair hpair, hname.trimmed]
  refine ⟨c.behind (name.toList.length + 1) c, ?_, behind_pair hpair c⟩
  unfold brackets at hclose
  simp only [embedded, hclose, hcontent]
  cases hcave : caveIn? name.toList with
  | some cave =>
      have hfound : scope.symbols.get? (Symbols.caveName (String.ofList cave)) = some address :=
        (Symbols.address_of_caveIn? hcave).trans hresolve
      simp only [hfound, found]
      rfl
  | none => simp only [hname.address, String.ofList_toList, hresolve]

theorem evaluate_embedded (hname : Embeddable name.toList)
    (hresolve : scope.symbols.resolve? scope.memory name = some address)
    (hregisters : relative = true → scope.registers = none) :
    ∃ cursor, evaluate scope (inBrackets relative name.toList) none =
      .ok ⟨embed scope relative address, cursor⟩ := by
  have hstart : (Cursor.skipSpace ⟨0, inBrackets relative name.toList, 0⟩).rest =
      inBrackets relative name.toList := by
    rw [Cursor.skipSpace_rest]
    cases relative <;> rfl
  obtain ⟨next, hnext, hrest⟩ := embedded_name hname hresolve
    (hstart.trans (List.append_nil _).symm) (operand scope 127) false
  have hoperand : operand scope nestingLimit false ⟨0, inBrackets relative name.toList, 0⟩ =
      .ok (embed scope relative address, next) := by
    rw [nestingLimit, operand_succ, operandAt_inBrackets hregisters hstart]
    exact hnext
  have hend : next.skipSpace.rest = [] := by
    rw [Cursor.skipSpace_rest, hrest]
    rfl
  have hexpect : next.expectEnd = .ok next.skipSpace := by
    simp only [Cursor.expectEnd, Cursor.peek?, hend, List.head?_nil]
  refine ⟨next.skipSpace.offset, ?_⟩
  simp only [evaluate, evaluateCounting, window, run, enclosed, expression, hoperand, bind,
    Except.bind, hrest, List.length_nil, climb, hexpect]
  rfl

end Expression
end CodePatch
