/-
# What code becomes

Two walks over the chunks of code have to agree: `Code.size`, which is asked
before any name has an address, and `Code.render`.  `render_fails_or_fills`
says that they do, in every scope: code becomes one piece of bytes for each
chunk, of the size that was kept for it, and a piece that has nothing to refer
to is zeros (`Rendered`).  Only an expression stands in the way of that, where
it fails for another reason than a name (`Malformed`): the first such one ends
the walk with its own error, in the place that the pieces in front of it give
it, and code without one is rendered.

Of the scope, `Code.size` is given the options only, so nothing else can have
a part in the number of bytes.
-/
import Mathlib
import CodePatch.Code.Compile
import CodePatch.Code.Render

namespace CodePatch

theorem ValueWidth.toBytes_ofWord_zero (width : ValueWidth) :
    (width.ofWord 0).toBytes = List.replicate width.size 0 := by
  cases width <;> decide

namespace Chunk

/-- At `here`, the chunk refers to a name that is not to be found. -/
def Unresolved (scope : Scope) (here : UInt32) : Chunk → Prop
  | .pointer target _ _ => scope.symbols.resolve? scope.memory target = none
  | .option name => scope.options.get? name = none
  | .sized _ expression => ∃ e, e.isUnresolved = true ∧
      Expression.evaluate (scope.withOrigin here) expression.toList none = .error e
  | .bytes _ | .literal _ => False

/-- At `here`, the chunk is an expression that fails, and not on a name. -/
def Malformed (scope : Scope) (here : UInt32) (e : ExpressionError) : Chunk → Prop
  | .sized _ expression => e.isUnresolved = false ∧
      Expression.evaluate (scope.withOrigin here) expression.toList none = .error e
  | .bytes _ | .pointer _ _ _ | .option _ | .literal _ => False

theorem render_sized_cases (scope : Scope) (here : UInt32) (width : ValueWidth)
    (expression : String) :
    (∃ e, (sized width expression).Malformed scope here e) ∨
    (∀ e, ¬ (sized width expression).Malformed scope here e) ∧
    ∃ piece, ((sized width expression).render scope here).1 = .ok piece ∧
      piece.length = width.size ∧
      ((sized width expression).Unresolved scope here → piece = List.replicate width.size 0) := by
  simp only [render, Unresolved, Malformed]
  cases Expression.evaluate (scope.withOrigin here) expression.toList none with
  | ok evaluation =>
      refine Or.inr ⟨?_, _, rfl, ?_, ?_⟩
      · rintro e ⟨-, he⟩
        cases he
      · rw [PatchValue.length_toBytes, ValueWidth.size_ofWord]
      · rintro ⟨e, -, he⟩
        cases he
  | error e =>
      by_cases hresolved : e.isUnresolved = true
      · simp only [if_pos hresolved]
        refine Or.inr ⟨?_, _, rfl, ?_, fun _ => width.toBytes_ofWord_zero⟩
        · rintro e' ⟨hmalformed, he⟩
          cases he
          rw [hresolved] at hmalformed
          cases hmalformed
        · rw [PatchValue.length_toBytes, ValueWidth.size_ofWord]
      · exact Or.inl ⟨e, Bool.eq_false_iff.mpr hresolved, rfl⟩

/-- A chunk is malformed, or becomes as many bytes as were kept for it. -/
theorem render_cases (scope : Scope) (here : UInt32) (chunk : Chunk) :
    (∃ e, chunk.Malformed scope here e) ∨
    (∀ e, ¬ chunk.Malformed scope here e) ∧
    ∃ piece, (chunk.render scope here).1 = .ok piece ∧ piece.length = chunk.size scope.options ∧
      (chunk.Unresolved scope here → piece = List.replicate (chunk.size scope.options) 0) := by
  cases chunk with
  | bytes data => exact Or.inr ⟨fun _ => id, data, rfl, rfl, False.elim⟩
  | literal value =>
      exact Or.inr ⟨fun _ => id, value.toBytes, rfl, value.length_toBytes, False.elim⟩
  | pointer target offset relative =>
      refine Or.inr ⟨fun _ => id, ?_⟩
      simp only [render, Unresolved]
      cases scope.symbols.resolve? scope.memory target with
      | some address =>
          exact ⟨_, rfl, length_littleEndian 4 _, fun h => absurd h (Option.some_ne_none _)⟩
      | none => exact ⟨_, rfl, List.length_replicate, fun _ => rfl⟩
  | option name =>
      refine Or.inr ⟨fun _ => id, ?_⟩
      simp only [render, Unresolved, size]
      cases scope.options.get? name with
      | some value =>
          exact ⟨_, rfl, value.length_toBytes, fun h => absurd h (Option.some_ne_none _)⟩
      | none => exact ⟨_, rfl, List.length_replicate, fun _ => rfl⟩
  | sized width expression => exact render_sized_cases scope here width expression

theorem Malformed.render_eq {scope : Scope} {here : UInt32} {e : ExpressionError} {chunk : Chunk}
    (h : chunk.Malformed scope here e) : (chunk.render scope here).1 = .error e := by
  cases chunk with
  | sized width expression =>
      obtain ⟨hmalformed, he⟩ := h
      simp only [render, he, hmalformed]
      rfl
  | bytes _ | pointer _ _ _ | option _ | literal _ => exact h.elim

end Chunk

namespace Code

/-- The pieces that chunks become one behind the other, from `here` on: none of
them is malformed, each has the size of its chunk, and is zeros if there is
nothing for it to refer to. -/
inductive Rendered (scope : Scope) : UInt32 → List Chunk → List (List UInt8) → Prop where
  | nil (here : UInt32) : Rendered scope here [] []
  | cons {here : UInt32} {chunk : Chunk} {chunks : List Chunk} {piece : List UInt8}
      {pieces : List (List UInt8)} (formed : ∀ e, ¬ chunk.Malformed scope here e)
      (bytes : (chunk.render scope here).1 = .ok piece)
      (size : piece.length = chunk.size scope.options)
      (zeros : chunk.Unresolved scope here →
        piece = List.replicate (chunk.size scope.options) 0)
      (rest : Rendered scope (here + UInt32.ofNat piece.length) chunks pieces) :
      Rendered scope here (chunk :: chunks) (piece :: pieces)

/-- Chunks of which one is malformed, with the error `e`; those in front of it are rendered. -/
def Breaks (scope : Scope) (here : UInt32) (chunks : List Chunk) (e : ExpressionError) : Prop :=
  ∃ front chunk behind pieces, chunks = front ++ chunk :: behind ∧
    Rendered scope here front pieces ∧
    chunk.Malformed scope (here + UInt32.ofNat pieces.flatten.length) e

section Chunks
variable {scope : Scope} {here : UInt32} {chunks : List Chunk} {pieces : List (List UInt8)}

theorem Rendered.length (h : Rendered scope here chunks pieces) :
    pieces.flatten.length = (chunks.map (Chunk.size scope.options)).foldr (· + ·) 0 := by
  induction h with
  | nil here => rfl
  | cons formed bytes size zeros rest ih =>
      rw [List.flatten_cons, List.length_append, size, ih, List.map_cons,
        List.foldr_cons]

theorem renderChunks_cons {chunk : Chunk} {piece : List UInt8}
    (h : (chunk.render scope here).1 = .ok piece) (rest : List Chunk) :
    (renderChunks scope here (chunk :: rest)).1 =
      (renderChunks scope (here + UInt32.ofNat piece.length) rest).1.map (piece ++ ·) := by
  rw [renderChunks]
  rcases hr : chunk.render scope here with ⟨_ | found, said⟩ <;> rw [hr] at h <;> cases h
  rfl

/-- Behind chunks that are rendered, rendering goes on at the address behind their pieces. -/
theorem Rendered.renderChunks_append (h : Rendered scope here chunks pieces) (behind : List Chunk) :
    (renderChunks scope here (chunks ++ behind)).1 =
      (renderChunks scope (here + UInt32.ofNat pieces.flatten.length) behind).1.map
        (pieces.flatten ++ ·) := by
  induction h with
  | nil here =>
      have hhere : here + UInt32.ofNat 0 = here := UInt32.add_zero here
      rw [List.nil_append, List.flatten_nil, List.length_nil, hhere]
      exact (congrFun Except.map_id _).symm
  | @cons here chunk chunks piece pieces formed bytes size zeros rest ih =>
      rw [List.cons_append, renderChunks_cons bytes, ih, List.flatten_cons, List.length_append,
        UInt32.ofNat_add, UInt32.add_assoc]
      cases (renderChunks scope _ behind).1 with
      | error e => rfl
      | ok later => exact congrArg Except.ok (List.append_assoc ..).symm

theorem Rendered.renderChunks_eq (h : Rendered scope here chunks pieces) :
    (renderChunks scope here chunks).1 = .ok pieces.flatten := by
  have happend := h.renderChunks_append []
  rw [List.append_nil] at happend
  rw [happend]
  exact congrArg Except.ok (List.append_nil _)

theorem Breaks.renderChunks_eq {e : ExpressionError} (h : Breaks scope here chunks e) :
    (renderChunks scope here chunks).1 = .error e := by
  obtain ⟨front, chunk, behind, pieces, rfl, hrendered, hmalformed⟩ := h
  rw [hrendered.renderChunks_append, renderChunks]
  have hchunk := hmalformed.render_eq
  rcases hr : chunk.render scope (here + UInt32.ofNat pieces.flatten.length) with ⟨_ | _, said⟩
  all_goals
    rw [hr] at hchunk
    cases hchunk
  rfl

/-- Chunks are rendered piece by piece, up to the first that is malformed. -/
theorem renderChunks_cases (scope : Scope) (here : UInt32) (chunks : List Chunk) :
    (∃ e, Breaks scope here chunks e) ∨ ∃ pieces, Rendered scope here chunks pieces := by
  induction chunks generalizing here with
  | nil => exact Or.inr ⟨[], .nil here⟩
  | cons chunk rest ih =>
      rcases chunk.render_cases scope here with
        ⟨e, hmalformed⟩ | ⟨hformed, piece, hpiece, hsize, hzeros⟩
      · refine Or.inl ⟨e, [], chunk, rest, [], rfl, .nil here, ?_⟩
        have hhere : here + UInt32.ofNat 0 = here := UInt32.add_zero here
        exact hhere.symm ▸ hmalformed
      · rcases ih (here + UInt32.ofNat piece.length) with
          ⟨e, front, broken, behind, pieces, rfl, hfront, hmalformed⟩ | ⟨pieces, hrest⟩
        · refine Or.inl ⟨e, chunk :: front, broken, behind, piece :: pieces, rfl,
            .cons hformed hpiece hsize hzeros hfront, ?_⟩
          rwa [List.flatten_cons, List.length_append, UInt32.ofNat_add, ← UInt32.add_assoc]
        · exact Or.inr ⟨piece :: pieces, .cons hformed hpiece hsize hzeros hrest⟩

end Chunks

theorem Breaks.isUnresolved_eq {scope : Scope} {here : UInt32} {chunks : List Chunk}
    {e : ExpressionError} (h : Breaks scope here chunks e) : e.isUnresolved = false := by
  obtain ⟨front, chunk, behind, pieces, -, -, hmalformed⟩ := h
  cases chunk with
  | sized width expression => exact hmalformed.1
  | bytes _ | pointer _ _ _ | option _ | literal _ => exact hmalformed.elim

section Code
variable {code : Code} {scope : Scope} {target : UInt32}

theorem Breaks.render_eq {e : ExpressionError} (h : Breaks scope target code.chunks e) :
    (code.render scope target).1 = .error (.expression e) := by
  have hchunks := h.renderChunks_eq
  rw [render]
  rcases hr : renderChunks scope target code.chunks with ⟨_ | _, said⟩
  all_goals
    rw [hr] at hchunks
    cases hchunks
  rfl

theorem Rendered.render_eq {pieces : List (List UInt8)}
    (h : Rendered scope target code.chunks pieces) :
    (code.render scope target).1 = .ok pieces.flatten := by
  have hchunks := h.renderChunks_eq
  have hlen : pieces.flatten.length = code.size scope.options := h.length
  rw [render]
  rcases hr : renderChunks scope target code.chunks with ⟨_ | _, said⟩
  all_goals
    rw [hr] at hchunks
    cases hchunks
  simp only [if_pos hlen]

end Code

theorem length_of_render {code : Code} {scope : Scope} {target : UInt32} {bytes : List UInt8}
    {said : Journal} (h : code.render scope target = (.ok bytes, said)) :
    bytes.length = code.size scope.options := by
  simp only [render] at h
  split at h
  · cases h
  · split at h
    · rename_i hlen
      cases h
      exact hlen
    · cases h

/-- Code is rendered exactly if no expression in it is malformed in its place, and becomes as many
bytes as its size says, piece by piece.  Otherwise it fails with the error of the first one. -/
theorem render_fails_or_fills (code : Code) (scope : Scope) (target : UInt32) :
    (∀ e, (code.render scope target).1 = .error e ↔
      ∃ cause, e = .expression cause ∧ Breaks scope target code.chunks cause) ∧
    (∀ bytes, (code.render scope target).1 = .ok bytes ↔
      ∃ pieces, bytes = pieces.flatten ∧ Rendered scope target code.chunks pieces) ∧
    (∀ cause, Breaks scope target code.chunks cause → cause.isUnresolved = false) ∧
    ∀ pieces, Rendered scope target code.chunks pieces →
      pieces.flatten.length = code.size scope.options := by
  refine ⟨fun e => ⟨fun he => ?_, ?_⟩, fun bytes => ⟨fun hbytes => ?_, ?_⟩,
    fun _ h => h.isUnresolved_eq, fun _ h => h.length⟩
  · rcases renderChunks_cases scope target code.chunks with ⟨cause, hbreaks⟩ | ⟨pieces, hrendered⟩
    · rw [hbreaks.render_eq] at he
      exact ⟨cause, (Except.error.inj he).symm, hbreaks⟩
    · rw [hrendered.render_eq] at he
      cases he
  · rintro ⟨cause, rfl, hbreaks⟩
    exact hbreaks.render_eq
  · rcases renderChunks_cases scope target code.chunks with ⟨cause, hbreaks⟩ | ⟨pieces, hrendered⟩
    · rw [hbreaks.render_eq] at hbytes
      cases hbytes
    · rw [hrendered.render_eq] at hbytes
      exact ⟨pieces, (Except.ok.inj hbytes).symm, hrendered⟩
  · rintro ⟨pieces, rfl, hrendered⟩
    exact hrendered.render_eq

/-! ### Names that are not to be found

A pointer, an option and a symbol become zeros, each of its own width.  A sum
without its second operand ends the rendering of the code that it is in. -/

def nameless : Scope where
  symbols := ⟨[]⟩
  options := {}

def unresolvedChunks : List Chunk :=
  [.pointer "nowhere" 0 true, .option "lives", .sized .u16 "<nobody>", .bytes [0x90]]

theorem unresolved_names_are_zeros :
    compile "[nowhere] <option:lives> (u16:<nobody>) 90" = .ok ⟨unresolvedChunks⟩ ∧
    (Code.render ⟨unresolvedChunks⟩ nameless 0x400000).1 =
      .ok [0, 0, 0, 0, 0, 0, 0, 0, 0, 0, 0x90] ∧
    compile "90 (u8:1 +)" = .ok ⟨[.bytes [0x90], .sized .u8 "1 +"]⟩ ∧
    (Code.render ⟨[.bytes [0x90], .sized .u8 "1 +"]⟩ nameless 0x400000).1 =
      .error (.expression (.unexpectedEnd 3)) := by
  have hsymbol : Expression.evaluate (nameless.withOrigin 0x400008) "<nobody>".toList none =
      .error (.symbolNotFound "nobody") := by rfl
  have hsum : Expression.evaluate (nameless.withOrigin 0x400001) "1 +".toList none =
      .error (.unexpectedEnd 3) := by rfl
  have hzeros : Rendered nameless 0x400000 unresolvedChunks
      [[0, 0, 0, 0], [0, 0, 0, 0], [0, 0], [0x90]] := by
    refine .cons (fun _ => id) rfl rfl (fun _ => rfl) ?_
    refine .cons (fun _ => id) rfl rfl (fun _ => rfl) ?_
    refine .cons ?_ rfl rfl (fun _ => rfl) ?_
    · rintro e ⟨he, hevaluate⟩
      cases hsymbol.symm.trans hevaluate
      cases he
    · exact .cons (fun _ => id) rfl rfl False.elim (.nil _)
  have hbreaks : Breaks nameless 0x400000 [.bytes [0x90], .sized .u8 "1 +"] (.unexpectedEnd 3) :=
    ⟨[.bytes [0x90]], .sized .u8 "1 +", [], [[0x90]], rfl,
      .cons (fun _ => id) rfl rfl False.elim (.nil _), rfl, hsum⟩
  refine ⟨rfl, ?_, rfl, ?_⟩
  · exact ((render_fails_or_fills ⟨unresolvedChunks⟩ nameless 0x400000).2.1 _).mpr ⟨_, rfl, hzeros⟩
  · exact ((render_fails_or_fills ⟨_⟩ nameless 0x400000).1 _).mpr ⟨_, rfl, hbreaks⟩

end Code
end CodePatch
