/-
# Places in memory, by a hit and by an expression

A field such as `[ebp-8]` names a place in memory.  A handler that asks for the
value there gets it in two steps: `pointer` takes off the bracket and evaluates
what comes before the one that closes it, found as a terminator, and `typed`
reads as many bytes as the width has and decodes them.  An expression such as
`(i16)[ebp-8]` finds the closing bracket by counting, evaluates what lies
between, one level deeper and further on in the text, reads, and narrows the
word to the type of the cast.

For a well nested address both find the same bracket, the same address, the
same bytes and the same value (`typed_eq_cast`).  What they read may be planned
to fail: both come to the word after the same number of reads.
-/
import CodePatch.Breakpoint.Hit
import CodePatch.Proofs.Expression.Embedded
import CodePatch.Proofs.Expression.Levels
import CodePatch.Proofs.Expression.Terminator

namespace CodePatch

namespace Expression

/-! ## The closing bracket -/

/-- The search for the closing bracket passes over well nested text. -/
theorem WellNested.closing?_append {text : List Char} (h : WellNested text) {depth : Nat}
    (hdepth : 1 ≤ depth) (rest : List Char) :
    Cursor.closing? '[' ']' depth (text ++ rest) =
      (Cursor.closing? '[' ']' depth rest).map (· + text.length) := by
  induction h generalizing depth rest with
  | nil => exact Option.map_id'.symm
  | @plain c more hplain _ ih =>
      have hopens : c ≠ '[' := fun heq => hplain (by rw [heq]; decide)
      have hcloses : c ≠ ']' := fun heq => hplain (by rw [heq]; decide)
      rw [List.cons_append, Cursor.closing?, if_neg hopens, if_neg hcloses, ih hdepth,
        Option.map_map]
      rfl
  | @pair opens closes inner more hkind _ _ ihbetween ihbehind =>
      have hlength : (opens :: (inner ++ closes :: more)).length =
          inner.length + (more.length + 1) + 1 := by
        rw [List.length_cons, List.length_append, List.length_cons]
      rw [List.cons_append, List.append_assoc, List.cons_append, hlength]
      simp only [bracketPairs, List.mem_cons, List.not_mem_nil, or_false, Prod.mk.injEq] at hkind
      rcases hkind with ⟨rfl, rfl⟩ | ⟨rfl, rfl⟩
      · rw [Cursor.closing?, if_neg (by decide), if_neg (by decide), ihbetween hdepth,
          Cursor.closing?, if_neg (by decide), if_neg (by decide), ihbehind hdepth]
        simp only [Option.map_map]
        refine congrArg (Option.map · _) (funext fun k => ?_)
        simp only [Function.comp_apply]
        omega
      · rw [Cursor.closing?, if_pos rfl, ihbetween (Nat.le_add_left 1 depth), Cursor.closing?,
          if_neg (by decide), if_pos rfl, if_neg (by omega), Nat.add_sub_cancel, ihbehind hdepth]
        simp only [Option.map_map]
        refine congrArg (Option.map · _) (funext fun k => ?_)
        simp only [Function.comp_apply]
        omega

theorem WellNested.closing?_eq {text : List Char} (h : WellNested text) (rest : List Char) :
    Cursor.closing? '[' ']' 0 ('[' :: (text ++ ']' :: rest)) = some (text.length + 1) := by
  rw [Cursor.closing?, if_pos rfl, h.closing?_append (Nat.le_refl 1), Cursor.closing?,
    if_neg (by decide), if_pos rfl, if_pos (Nat.le_refl 1), Option.map_some, Option.map_some,
    Nat.zero_add]

/-! ## A cast in front of it -/

namespace IntegerType

/-- The type, as a width that handlers can name. -/
def width : IntegerType → ValueWidth
  | .i8 => .i8
  | .u8 => .u8
  | .i16 => .i16
  | .u16 => .u16
  | .i32 => .i32
  | .u32 => .u32

theorem readSize_toCast (type : IntegerType) : type.toCast.readSize = type.width.size := by
  cases type <;> rfl

theorem word_decode (type : IntegerType) {bytes : List UInt8}
    (h : bytes.length = type.width.size) :
    (type.width.decode bytes).word =
      type.toCast.convert (UInt32.ofNat (ofLittleEndian bytes)) := by
  have hpattern : ofLittleEndian (bytes.take type.width.size) = ofLittleEndian bytes := by
    rw [List.take_of_length_le (Nat.le_of_eq h)]
  have hnarrow : ∀ w, w ≤ 32 → BitVec.ofNat w (ofLittleEndian (bytes.take type.width.size)) =
      (BitVec.ofNat 32 (ofLittleEndian bytes)).setWidth w := by
    intro w hw
    rw [hpattern, BitVec.setWidth_ofNat_of_le hw]
  cases type with
  | i8 => exact congrArg (fun x => UInt32.ofBitVec (x.signExtend 32)) (hnarrow 8 (by decide))
  | u8 => exact congrArg (fun x => UInt32.ofBitVec (x.setWidth 32)) (hnarrow 8 (by decide))
  | i16 => exact congrArg (fun x => UInt32.ofBitVec (x.signExtend 32)) (hnarrow 16 (by decide))
  | u16 => exact congrArg (fun x => UInt32.ofBitVec (x.setWidth 32)) (hnarrow 16 (by decide))
  | i32 =>
      refine congrArg UInt32.ofBitVec ((BitVec.signExtend_eq _).trans ?_)
      exact (hnarrow 32 (Nat.le_refl 32)).trans (BitVec.setWidth_eq _)
  | u32 =>
      refine congrArg UInt32.ofBitVec ((BitVec.setWidth_eq _).trans ?_)
      exact (hnarrow 32 (Nat.le_refl 32)).trans (BitVec.setWidth_eq _)

end IntegerType

/-! ## Reading it -/

section Reading

variable {scope : Scope} {text : List Char} {address : UInt32}

/-- An operand behind which nothing is left is the whole expression. -/
theorem enclosed_of_operand {operand : Operand} {skipping : Bool} {c reached : Cursor}
    {value : UInt32} (h : operand skipping c = .ok (value, reached)) (hend : reached.rest = []) :
    enclosed operand skipping c = .ok (value, reached.skipSpace) := by
  have hexpression : expression operand skipping c = .ok (value, reached) := by
    rw [expression, h]
    show climb operand reached.rest.length Operator.commaPrecedence skipping value reached = _
    rw [hend]
    rfl
  have hexpect : reached.expectEnd = .ok reached.skipSpace := by
    rw [Cursor.expectEnd, Cursor.peek?, Cursor.skipSpace_rest, hend]
    rfl
  rw [enclosed, hexpression]
  show (do
    let c ← reached.expectEnd
    return (value, c)) = _
  rw [hexpect]
  rfl

theorem exists_run {cursor reads : Nat}
    (h : evaluateCounting scope text none = (.ok ⟨address, cursor⟩, reads)) :
    ∃ reached, run scope text = .ok (address, reached) ∧ reached.reads = reads := by
  rw [evaluateCounting] at h
  rcases hrun : run scope (window none text) with failure | ⟨value, reached⟩
  · rw [hrun] at h
    cases h
  · rw [hrun] at h
    cases h
    exact ⟨reached, hrun, rfl⟩

/-- A cast in front of brackets: the address between them is read, with the levels that are
left, and then the word that memory holds there. -/
theorem operandAt_cast {operand : Operand} (type : IntegerType) {c reached : Cursor}
    (hrest : c.rest = type.token ++ '[' :: (text ++ [']'])) (hnested : WellNested text)
    (hregisters : scope.registers.isSome = true)
    (hread : enclosed operand false
      ((c.advance type.token.length).inside (text.length + 1)) = .ok (address, reached)) :
    operandAt scope operand false c = (do
      let (raw, c) ← readWord scope type.toCast address
        ((c.advance type.token.length).behind (text.length + 1) reached)
      return (type.toCast.convert raw, c)) := by
  have hopen : (c.advance type.token.length).rest = '[' :: (text ++ [']']) := by
    rw [Cursor.advance, hrest]
    exact List.drop_left
  have hsolid : (c.advance type.token.length).skipSpace = c.advance type.token.length := by
    rw [Cursor.skipSpace, hopen]
    rfl
  have hpeek : (c.advance type.token.length).peek? = some '[' := by
    rw [Cursor.peek?, hopen]
    rfl
  have hpresent : scope.registers.isNone = false := by
    rw [Option.isNone_eq_false_iff]
    exact hregisters
  have hdereference : dereference scope operand type.toCast false (c.advance type.token.length) =
      readWord scope type.toCast address
        ((c.advance type.token.length).behind (text.length + 1) reached) := by
    rw [dereference, hpresent, if_neg Bool.false_ne_true, hopen, hnested.closing?_eq []]
    show (enclosed operand false _ >>= _) = _
    rw [hread]
    rfl
  rw [operandAt, hrest, Cast.atStart?_token]
  simp only [hsolid, if_pos hpeek, hdereference]

/-- A whole text of that form: the address is the one that it is alone, if it is not nested so
deeply that the level of the brackets is missed. -/
theorem operand_cast (type : IntegerType) {reached : Cursor} (hnested : WellNested text)
    (hregisters : scope.registers.isSome = true)
    (hdepth : NestedWithin scope (nestingLimit - 2) text)
    (hrun : run scope text = .ok (address, reached)) :
    ∃ after : Cursor, after.rest = [] ∧ after.reads = reached.reads ∧
      operand scope nestingLimit false ⟨0, type.token ++ '[' :: (text ++ [']']), 0⟩ = (do
        let (raw, c) ← readWord scope type.toCast address after
        return (type.toCast.convert raw, c)) := by
  let start : Cursor := ⟨0, type.token ++ '[' :: (text ++ [']']), 0⟩
  have hstart : start.skipSpace = start := by
    cases type <;> rfl
  have hopen : (start.advance type.token.length).rest = '[' :: (text ++ [']']) := List.drop_left
  have hinner := hdepth.enclosed_eq (by decide) (by decide : nestingLimit - 2 < nestingLimit - 1)
    hrun (inside_pair hopen) rfl
  have hlevel : operand scope nestingLimit false start =
      operandAt scope (operand scope (nestingLimit - 1)) false start :=
    (operand_succ (nestingLimit - 1) false start).trans (by rw [hstart])
  have hcast := operandAt_cast type rfl hnested hregisters hinner
  exact ⟨_, behind_pair hopen _, rfl, hlevel.trans hcast⟩

/-- A cast in front of an address in brackets comes to the word at the address, narrowed to the
type, if it can be read once the address is known. -/
theorem evaluate_cast {memory : Memory} {cursor reads : Nat} (type : IntegerType)
    (hregisters : scope.registers.isSome = true) (hmemory : scope.memory = some memory)
    (hnested : WellNested text) (hdepth : NestedWithin scope (nestingLimit - 2) text)
    (hread : evaluateCounting scope text none = (.ok ⟨address, cursor⟩, reads)) :
    (evaluate scope (type.token ++ '[' :: (text ++ [']'])) none).toOption.map (·.value) =
      (memory.readAfter reads address type.width.size).toOption.map fun bytes =>
        type.toCast.convert (UInt32.ofNat (ofLittleEndian bytes)) := by
  obtain ⟨reached, hrun, rfl⟩ := exists_run hread
  obtain ⟨after, hend, hreads, hoperand⟩ := operand_cast type hnested hregisters hdepth hrun
  rw [← hreads, ← type.readSize_toCast]
  rcases hbytes : memory.readAfter after.reads address type.toCast.readSize with error | bytes
  · have hword : readWord scope type.toCast address after =
        .error ⟨.memoryUnreadable address type.toCast.readSize, after.reads + 1⟩ := by
      rw [readWord, hmemory]
      simp only [hbytes]
      rfl
    have hfails : run scope (type.token ++ '[' :: (text ++ [']'])) =
        .error ⟨.memoryUnreadable address type.toCast.readSize, after.reads + 1⟩ := by
      rw [run, enclosed, expression, hoperand, hword]
      rfl
    rw [evaluate, evaluateCounting, window, hfails]
    rfl
  · have hword : readWord scope type.toCast address after =
        .ok (UInt32.ofNat (ofLittleEndian bytes), { after with reads := after.reads + 1 }) := by
      rw [readWord, hmemory]
      simp only [hbytes]
    rw [hword] at hoperand
    rw [evaluate, evaluateCounting, window, run, enclosed_of_operand hoperand hend]
    rfl

end Reading
end Expression

/-! ## What a handler gets -/

theorem Register.ofName?_bracket (rest : List Char) : ofName? ('[' :: rest) = none := by
  have hletters : ∀ register ∈ all,
      register.name.toList.head?.map Char.toLower ≠ some '[' := by decide
  rw [ofName?, List.find?_eq_none]
  intro register hmem hsame
  have hfirst := congrArg List.head? (beq_iff_eq.mp hsame)
  rw [List.head?_map, List.head?_map] at hfirst
  exact hletters register hmem hfirst

namespace Hit

open Expression (WellNested NestedWithin evaluate evaluateCounting nestingLimit window)

variable {hit : Hit} {key : String} {text : List Char} {address : UInt32}

theorem text?_brackets
    (h : hit.field? key = some (.string (String.ofList ('[' :: (text ++ [']']))))) :
    hit.text? key = some ('[' :: (text ++ [']'])) := by
  rw [text?, h]
  show some (Text.trim (String.ofList ('[' :: (text ++ [']']))).toList) = _
  rw [String.toList_ofList]
  exact congrArg some (trim_inBrackets true text)

theorem pointer_brackets {cursor reads : Nat}
    (hfield : hit.field? key = some (.string (String.ofList ('[' :: (text ++ [']'])))))
    (hnested : WellNested text)
    (hread : evaluateCounting hit.scope text none = (.ok ⟨address, cursor⟩, reads)) :
    hit.pointer key = (some (.memory address), (hit.spend reads).say []) := by
  have hwindow : window (some ']') (text ++ [']']) = text :=
    Expression.window_append hnested (Expression.not_standsOutside_of_closes
      (by decide : ('[', ']') ∈ Expression.bracketPairs) hnested) []
  have hevaluate : evaluateCounting hit.scope (text ++ [']']) (some ']') =
      (.ok ⟨address, cursor⟩, reads) := by
    rw [Expression.evaluateCounting_window, hwindow, hread]
  have hleft : (text ++ [']']).drop (text.length + 1) = [] :=
    List.drop_eq_nil_of_le (by rw [List.length_append, List.length_singleton])
  simp only [pointer, text?_brackets hfield, Register.ofName?_bracket, dereference, hevaluate,
    hwindow, hleft]
  rfl

/-- A handler that asks for the value gets the bytes at the address, decoded, if they can be
read once the address is known. -/
theorem typed_brackets {cursor reads : Nat} (width : ValueWidth)
    (hfield : hit.field? key = some (.string (String.ofList ('[' :: (text ++ [']'])))))
    (hnested : WellNested text)
    (hread : evaluateCounting hit.scope text none = (.ok ⟨address, cursor⟩, reads)) :
    (hit.typed key width).1 =
      (hit.bench.memory.readAfter reads address width.size).toOption.map width.decode := by
  have hbytes : (((hit.spend reads).say []).read address width.size).1 =
      hit.bench.memory.readAfter reads address width.size :=
    hit.bench.memory.readBytes_spend reads address width.size
  simp only [typed, pointer_brackets hfield hnested hread, ← hbytes]
  rcases ((hit.spend reads).say []).read address width.size with ⟨error | bytes, after⟩
  · rfl
  · rfl

/-- The two ways to the value in memory agree: if the address in brackets is well nested, leaves
two levels of nesting and evaluates, it is the place that is found, and the value read there in
the width of an integer type is what the expression with that cast in front comes to; either
both have a value or neither has. -/
theorem typed_eq_cast {cursor : Nat}
    (hfield : hit.field? key = some (.string (String.ofList ('[' :: (text ++ [']'])))))
    (hnested : WellNested text) (hdepth : NestedWithin hit.scope (nestingLimit - 2) text)
    (hread : evaluate hit.scope text none = .ok ⟨address, cursor⟩) :
    (hit.pointer key).1 = some (.memory address) ∧
      ∀ type : Expression.IntegerType,
        (hit.typed key type.width).1.map (·.word) =
          (evaluate hit.scope (type.token ++ '[' :: (text ++ [']'])) none).toOption.map
            (·.value) := by
  obtain ⟨reads, hcounting⟩ : ∃ reads,
      evaluateCounting hit.scope text none = (.ok ⟨address, cursor⟩, reads) :=
    ⟨_, Prod.ext hread rfl⟩
  refine ⟨by rw [pointer_brackets hfield hnested hcounting], fun type => ?_⟩
  rw [typed_brackets type.width hfield hnested hcounting,
    Expression.evaluate_cast type rfl rfl hnested hdepth hcounting]
  rcases hbytes : hit.bench.memory.readAfter reads address type.width.size with error | bytes
  · rfl
  · exact congrArg some (type.word_decode (Memory.length_of_readAfter hbytes))

/-- A hit whose field `slot` is `[[ebp-8]+2]`; the address in the inner brackets is on the stack. -/
def sampleHit : Hit where
  name := "enter"
  address := 0x401000
  registers := { ebp := 0x1008 }
  config := .object [("slot", .string "[[ebp-8]+2]")]
  symbols := {}
  options := {}
  bench := { memory :=
    { mappings := [.ofBytes 0x1000 [0x02, 0x10, 0x00, 0x00, 0xFE] .readWrite] } }

/-- A byte on the stack is read with its sign, by the handler and by the cast. -/
theorem sampleHit_typed_eq_cast :
    sampleHit.field? "slot" =
        some (.string (String.ofList ('[' :: ("[ebp-8]+2".toList ++ [']'])))) ∧
      WellNested "[ebp-8]+2".toList ∧
      NestedWithin sampleHit.scope (nestingLimit - 2) "[ebp-8]+2".toList ∧
      evaluate sampleHit.scope "[ebp-8]+2".toList none = .ok ⟨0x1004, 9⟩ ∧
      (sampleHit.pointer "slot").1 = some (.memory 0x1004) ∧
      (sampleHit.typed "slot" .i8).1.map (·.word) =
        (evaluate sampleHit.scope ("(i8)".toList ++ '[' :: ("[ebp-8]+2".toList ++ [']']))
          none).toOption.map (·.value) ∧
      (sampleHit.typed "slot" .i8).1.map (·.word) = some 0xFFFFFFFE := by
  have hfield : sampleHit.field? "slot" =
      some (.string (String.ofList ('[' :: ("[ebp-8]+2".toList ++ [']'])))) := rfl
  have hread : evaluate sampleHit.scope "[ebp-8]+2".toList none = .ok ⟨0x1004, 9⟩ := rfl
  have hinner : WellNested "ebp-8".toList :=
    .plain (by decide) (.plain (by decide) (.plain (by decide)
      (.plain (by decide) (.plain (by decide) .nil))))
  have hbehind : WellNested "+2".toList := .plain (by decide) (.plain (by decide) .nil)
  have hnested : WellNested "[ebp-8]+2".toList :=
    @WellNested.pair '[' ']' _ _ (by decide) hinner hbehind
  have hdepth : NestedWithin sampleHit.scope (nestingLimit - 2) "[ebp-8]+2".toList :=
    Expression.nestedWithin_of_nesting_le (by decide) sampleHit.scope
  obtain ⟨hpointer, htyped⟩ := typed_eq_cast hfield hnested hdepth hread
  exact ⟨hfield, hnested, hdepth, hread, hpointer, htyped .i8, (htyped .i8).trans rfl⟩

end Hit
end CodePatch
