/-
# Code strings one behind the other

`code_strings_compose` says that writing two code strings after each other, with
a space between them, is putting their bytes after each other.  The code that
comes of it is not the one list of chunks behind the other: a byte at the end of
the first string and one at the start of the second lie in the same chunk.  So
sizes and bytes are counted in pieces here (`Piece.size`, `Piece.render`), and
`size_putBefore` and `renderChunks_putBefore_iff` say that putting a piece into
a chunk that is there makes no difference to them.

Addresses count from the place that the chunks before have reached, modulo
`2 ^ 32`, which is why the second string is rendered at the address behind the
first one.
-/
import CodePatch.Proofs.Code.Render
import CodePatch.Proofs.Code.Pieces

namespace CodePatch

namespace Piece

/-- The number of bytes that a piece becomes. -/
def size (options : Options) : Piece → Nat
  | .blank => 0
  | .byte _ => 1
  | .chunk value => value.size options

/-- The bytes of a piece at the address `here`. -/
def render (scope : Scope) (here : UInt32) : Piece → Reported ExpressionError (List UInt8)
  | .blank => (.ok [], [])
  | .byte value => (.ok [value], [])
  | .chunk value => value.render scope here

end Piece

namespace Code

open Piece (together Reads)

/-! ## Sizes -/

theorem size_putBefore (options : Options) (piece : Piece) (chunks : List Chunk) :
    size options ⟨piece.putBefore chunks⟩ = piece.size options + size options ⟨chunks⟩ := by
  cases piece with
  | blank => exact (Nat.zero_add _).symm
  | chunk value => rfl
  | byte value =>
      cases chunks with
      | nil => rfl
      | cons first rest =>
          cases first with
          | bytes later =>
              show later.length + 1 + size options ⟨rest⟩ = 1 + (later.length + size options ⟨rest⟩)
              omega
          | pointer | option | sized | literal => rfl

theorem size_together (options : Options) (pieces : List Piece) (later : List Chunk) :
    size options ⟨together pieces later⟩ =
      size options ⟨together pieces []⟩ + size options ⟨later⟩ := by
  induction pieces with
  | nil => exact (Nat.zero_add _).symm
  | cons piece rest ih =>
      have hone := size_putBefore options piece (together rest later)
      have hnone := size_putBefore options piece (together rest [])
      show size options ⟨piece.putBefore (together rest later)⟩ =
        size options ⟨piece.putBefore (together rest [])⟩ + size options ⟨later⟩
      omega

/-! ## Bytes -/

section Bytes
variable {scope : Scope} {here : UInt32} {bytes : List UInt8} {said : Journal}

/-- Two parts that are rendered, the second at the address behind the first. -/
def InTurn (scope : Scope) (first : Reported ExpressionError (List UInt8)) (here : UInt32)
    (later : List Chunk) (bytes : List UInt8) (said : Journal) : Prop :=
  ∃ front back saidFirst saidLater, first = (.ok front, saidFirst) ∧
    renderChunks scope (here + UInt32.ofNat front.length) later = (.ok back, saidLater) ∧
    bytes = front ++ back ∧ said = saidFirst ++ saidLater

theorem renderChunks_cons_iff {chunk : Chunk} {rest : List Chunk} :
    renderChunks scope here (chunk :: rest) = (.ok bytes, said) ↔
      InTurn scope (chunk.render scope here) here rest bytes said := by
  simp only [renderChunks, InTurn]
  constructor
  · intro h
    rcases hfirst : chunk.render scope here with ⟨e | front, saidFirst⟩
    · rw [hfirst] at h
      cases h
    · rw [hfirst] at h
      rcases hlater : renderChunks scope (here + UInt32.ofNat front.length) rest with
        ⟨e | back, saidLater⟩
      · simp only [hlater] at h
        cases h
      · simp only [hlater] at h
        cases h
        exact ⟨front, back, saidFirst, saidLater, rfl, hlater, rfl, rfl⟩
  · rintro ⟨front, back, saidFirst, saidLater, hfirst, hlater, rfl, rfl⟩
    rw [hfirst]
    simp only [hlater]
    rfl

theorem add_ofNat_length (here : UInt32) (front back : List UInt8) :
    here + UInt32.ofNat front.length + UInt32.ofNat back.length =
      here + UInt32.ofNat (front ++ back).length := by
  rw [List.length_append, UInt32.ofNat_add, UInt32.add_assoc]

theorem inTurn_ok_iff {front : List UInt8} {saidFront : Journal} {later : List Chunk} :
    InTurn scope (.ok front, saidFront) here later bytes said ↔
      ∃ back saidLater, renderChunks scope (here + UInt32.ofNat front.length) later =
        (.ok back, saidLater) ∧ bytes = front ++ back ∧ said = saidFront ++ saidLater := by
  constructor
  · rintro ⟨_, back, _, saidLater, hfront, hlater, hbytes, hsaid⟩
    cases hfront
    exact ⟨back, saidLater, hlater, hbytes, hsaid⟩
  · rintro ⟨back, saidLater, hlater, hbytes, hsaid⟩
    exact ⟨front, back, saidFront, saidLater, rfl, hlater, hbytes, hsaid⟩

theorem inTurn_nil_iff {later : List Chunk} :
    InTurn scope (.ok [], []) here later bytes said ↔
      renderChunks scope here later = (.ok bytes, said) := by
  have hplace : here + UInt32.ofNat ([] : List UInt8).length = here := UInt32.add_zero here
  rw [inTurn_ok_iff, hplace]
  constructor
  · rintro ⟨back, saidLater, h, rfl, rfl⟩
    exact h
  · intro h
    exact ⟨bytes, said, h, rfl, rfl⟩

theorem renderChunks_append_iff {front back : List Chunk} :
    renderChunks scope here (front ++ back) = (.ok bytes, said) ↔
      InTurn scope (renderChunks scope here front) here back bytes said := by
  induction front generalizing here bytes said with
  | nil => exact inTurn_nil_iff.symm
  | cons chunk rest ih =>
      rw [List.cons_append, renderChunks_cons_iff]
      constructor
      · rintro ⟨first, others, saidFirst, saidOthers, hfirst, hothers, rfl, rfl⟩
        obtain ⟨middle, last, saidMiddle, saidLast, hmiddle, hlast, rfl, rfl⟩ := ih.mp hothers
        rw [add_ofNat_length] at hlast
        refine ⟨first ++ middle, last, saidFirst ++ saidMiddle, saidLast, ?_, hlast, ?_, ?_⟩
        · exact renderChunks_cons_iff.mpr
            ⟨first, middle, saidFirst, saidMiddle, hfirst, hmiddle, rfl, rfl⟩
        · exact (List.append_assoc ..).symm
        · exact (List.append_assoc ..).symm
      · rintro ⟨before, last, saidBefore, saidLast, hbefore, hlast, rfl, rfl⟩
        obtain ⟨first, middle, saidFirst, saidMiddle, hfirst, hmiddle, rfl, rfl⟩ :=
          renderChunks_cons_iff.mp hbefore
        rw [← add_ofNat_length] at hlast
        refine ⟨first, middle ++ last, saidFirst, saidMiddle ++ saidLast, hfirst, ?_, ?_, ?_⟩
        · exact ih.mpr ⟨middle, last, saidMiddle, saidLast, hmiddle, hlast, rfl, rfl⟩
        · exact List.append_assoc ..
        · exact List.append_assoc ..

/-- A byte in front of others is rendered as a chunk of its own would be. -/
theorem renderChunks_byte_iff {value : UInt8} {bytes' : List UInt8} {rest : List Chunk} :
    renderChunks scope here (.bytes (value :: bytes') :: rest) = (.ok bytes, said) ↔
      renderChunks scope here (.bytes [value] :: .bytes bytes' :: rest) = (.ok bytes, said) := by
  rw [renderChunks_cons_iff, renderChunks_cons_iff]
  simp only [Chunk.render, inTurn_ok_iff, renderChunks_cons_iff]
  have hplace := add_ofNat_length here [value] bytes'
  constructor
  · rintro ⟨back, saidLater, hlater, hbytes, hsaid⟩
    rw [← List.singleton_append, ← hplace] at hlater
    exact ⟨_, _, ⟨back, saidLater, hlater, rfl, rfl⟩, hbytes, hsaid⟩
  · rintro ⟨_, _, ⟨back, saidLater, hlater, hback, hsaidBack⟩, hbytes, hsaid⟩
    rw [hplace] at hlater
    rw [hback] at hbytes
    rw [hsaidBack] at hsaid
    exact ⟨back, saidLater, hlater, hbytes, hsaid⟩

theorem renderChunks_putBefore_iff {piece : Piece} {chunks : List Chunk} :
    renderChunks scope here (piece.putBefore chunks) = (.ok bytes, said) ↔
      InTurn scope (piece.render scope here) here chunks bytes said := by
  cases piece with
  | chunk value => exact renderChunks_cons_iff
  | blank => exact inTurn_nil_iff.symm
  | byte value =>
      cases chunks with
      | nil => exact renderChunks_cons_iff
      | cons first rest =>
          cases first with
          | bytes later => exact renderChunks_byte_iff.trans renderChunks_cons_iff
          | pointer | option | sized | literal => exact renderChunks_cons_iff

/-- Pieces become what they become on their own, and what follows them becomes
what it becomes at the address behind. -/
theorem renderChunks_together {pieces : List Piece} {later : List Chunk} {front back : List UInt8}
    {saidFront saidBack : Journal}
    (hfront : renderChunks scope here (together pieces []) = (.ok front, saidFront))
    (hback : renderChunks scope (here + UInt32.ofNat front.length) later = (.ok back, saidBack)) :
    renderChunks scope here (together pieces later) =
      (.ok (front ++ back), saidFront ++ saidBack) := by
  induction pieces generalizing here front saidFront with
  | nil =>
      cases hfront
      exact inTurn_nil_iff.mp (inTurn_ok_iff.mpr ⟨back, saidBack, hback, rfl, rfl⟩)
  | cons piece rest ih =>
      obtain ⟨first, middle, saidFirst, saidMiddle, hfirst, hmiddle, rfl, rfl⟩ :=
        renderChunks_putBefore_iff.mp hfront
      rw [← add_ofNat_length] at hback
      refine renderChunks_putBefore_iff.mpr
        ⟨first, middle ++ back, saidFirst, saidMiddle ++ saidBack, hfirst, ih hmiddle hback, ?_, ?_⟩
      · exact List.append_assoc ..
      · exact List.append_assoc ..

/-- Code is rendered if its chunks are; no size can be wrong then. -/
theorem render_eq_ok_iff {code : Code} {target : UInt32} :
    code.render scope target = (.ok bytes, said) ↔
      renderChunks scope target code.chunks = (.ok bytes, said) := by
  simp only [render]
  constructor
  · intro h
    rcases hchunks : renderChunks scope target code.chunks with ⟨e | found, saidFound⟩
    · rw [hchunks] at h
      cases h
    · simp only [hchunks] at h
      split at h
      · cases h
        rfl
      · cases h
  · intro h
    have hlen : bytes.length = code.size scope.options := by
      rcases renderChunks_cases scope target code.chunks with ⟨e, hbreaks⟩ | ⟨pieces, hrendered⟩
      · have he := hbreaks.renderChunks_eq
        rw [h] at he
        cases he
      · have hok := hrendered.renderChunks_eq
        rw [h] at hok
        cases hok
        exact hrendered.length
    simp only [h, if_pos hlen]

end Bytes

/-- A code string behind another one, with a space between them, compiles to
code that becomes what the two become, the second at the address behind the
first. -/
theorem code_strings_compose {a b : String} {codeA codeB : Code}
    (ha : compile a = .ok codeA) (hb : compile b = .ok codeB) :
    ∃ code, compile (a ++ " " ++ b) = .ok code ∧
      (∀ options, code.size options = codeA.size options + codeB.size options) ∧
      ∀ scope target bytesA bytesB saidA saidB,
        codeA.render scope target = (.ok bytesA, saidA) →
        codeB.render scope (target + UInt32.ofNat (codeA.size scope.options)) =
          (.ok bytesB, saidB) →
        code.render scope target = (.ok (bytesA ++ bytesB), saidA ++ saidB) := by
  obtain ⟨piecesA, hreadA, hchunksA⟩ := compile_eq_ok_iff.mp ha
  obtain ⟨piecesB, hreadB, hchunksB⟩ := compile_eq_ok_iff.mp hb
  have hread := hreadA.append (Piece.breaks_space b.toList) hreadB.blank
  have htext : (a ++ " " ++ b).toList = a.toList ++ ' ' :: b.toList := by
    rw [String.toList_append, String.toList_append, List.append_assoc]
    rfl
  have htogether : together (piecesA ++ .blank :: piecesB) [] =
      together piecesA (together piecesB []) := by
    unfold together
    rw [List.foldr_append]
    rfl
  rw [← htext] at hread
  refine ⟨⟨together piecesA (together piecesB [])⟩,
    compile_eq_ok_iff.mpr ⟨_, hread, htogether.symm⟩, ?_, ?_⟩
  · intro options
    have hsize := size_together options piecesA (together piecesB [])
    rw [← hchunksA, ← hchunksB] at hsize
    rw [← hchunksB]
    exact hsize
  · intro scope target bytesA bytesB saidA saidB hA hB
    rw [← length_of_render hA] at hB
    rw [render_eq_ok_iff] at hA hB ⊢
    rw [hchunksA] at hA
    rw [hchunksB] at hB
    exact renderChunks_together hA hB

/-! ### Two code strings

The byte at the seam comes from either of them, and both strings hold a
distance that counts from the place where it is written. -/

def sampleScope : Scope where
  symbols := ⟨[("f", 0x401000)]⟩
  options := {}

theorem sample_code_strings_compose : ∃ code,
    compile ("E8 [f+4] 90" ++ " " ++ "90 (u16:<f>) [f]") = .ok code ∧ code.size {} = 13 ∧
      code.render sampleScope 0x400000 =
        (.ok [0xE8, 0xFF, 0x0F, 0x00, 0x00, 0x90, 0x90, 0x00, 0x10, 0xF3, 0x0F, 0x00, 0x00],
          []) := by
  have hA : compile "E8 [f+4] 90" =
      .ok ⟨[.bytes [0xE8], .pointer "f" 4 true, .bytes [0x90]]⟩ := by rfl
  have hB : compile "90 (u16:<f>) [f]" =
      .ok ⟨[.bytes [0x90], .sized .u16 "<f>", .pointer "f" 0 true]⟩ := by rfl
  obtain ⟨code, hcode, hsize, hrender⟩ := code_strings_compose hA hB
  refine ⟨code, hcode, hsize {}, ?_⟩
  exact hrender sampleScope 0x400000 [0xE8, 0xFF, 0x0F, 0x00, 0x00, 0x90]
    [0x90, 0x00, 0x10, 0xF3, 0x0F, 0x00, 0x00] [] [] (by cbv) (by cbv)

end Code
end CodePatch
