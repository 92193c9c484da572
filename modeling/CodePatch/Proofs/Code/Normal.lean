/-
# What code strings compile to

Compiled code is in normal form: no chunk of bytes is empty, and no two of them are
neighbours (`normal_together`).  What else is in it can be printed, because the parts of a
pointer, an option and a sized expression are cut where their brackets are and then trimmed
(`Chunk.Printable`).  Two kinds of chunks are compiled and have no printed form all the
same (`Chunk.Compiled`): floats, and options in square brackets with a `>` in their names.
-/
import CodePatch.Proofs.Code.Address
import CodePatch.Proofs.Text.Trim

namespace CodePatch

/-! ## Parentheses -/

namespace Text

/-- How many parentheses are open behind a text, if `depth` are open in front of it;
`none` if one is closed that is not open. -/
def openBehind? : Nat → List Char → Option Nat
  | depth, [] => some depth
  | depth, c :: rest =>
    if c = '(' then openBehind? (depth + 1) rest
    else if c = ')' then
      match depth with
      | 0 => none
      | depth + 1 => openBehind? depth rest
    else openBehind? depth rest

/-- Every parenthesis that is opened is closed, and no other. -/
def Balanced (text : List Char) : Prop :=
  openBehind? 0 text = some 0

instance (text : List Char) : Decidable (Balanced text) :=
  inferInstanceAs (Decidable (openBehind? 0 text = some 0))

theorem openBehind?_append (depth : Nat) (front back : List Char) :
    openBehind? depth (front ++ back) =
      (openBehind? depth front).bind fun depth => openBehind? depth back := by
  induction front generalizing depth with
  | nil => rfl
  | cons c rest ih =>
      simp only [List.cons_append, openBehind?]
      split
      · exact ih _
      · split
        · cases depth with
          | zero => rfl
          | succ depth => exact ih depth
        · exact ih depth

theorem openBehind?_plain {text : List Char} (h : ∀ c ∈ text, c ≠ '(' ∧ c ≠ ')') (depth : Nat) :
    openBehind? depth text = some depth := by
  induction text with
  | nil => rfl
  | cons c rest ih =>
      obtain ⟨hopen, hclose⟩ := h c List.mem_cons_self
      simp only [openBehind?, if_neg hopen, if_neg hclose]
      exact ih fun d hd => h d (List.mem_cons_of_mem _ hd)

theorem openBehind?_trim (depth : Nat) (text : List Char) :
    openBehind? depth (trim text) = openBehind? depth text := by
  have hblank : ∀ c, isBlank c = true → c ≠ '(' ∧ c ≠ ')' := by
    rintro c hc
    refine ⟨?_, ?_⟩
    · rintro rfl
      revert hc
      decide
    · rintro rfl
      revert hc
      decide
  obtain ⟨front, back, htext, hfront, hback⟩ := padded_trim text
  have hall : openBehind? depth (front ++ trim text ++ back) = openBehind? depth (trim text) := by
    rw [openBehind?_append, openBehind?_append,
      openBehind?_plain fun c hc => hblank c (hfront c hc), Option.bind_some]
    cases openBehind? depth (trim text) with
    | none => rfl
    | some behind => exact openBehind?_plain (fun c hc => hblank c (hback c hc)) behind
  rw [← hall, ← htext]

end Text

/-! ## Chunks that can be printed -/

namespace Chunk

def isBytes : Chunk → Bool
  | .bytes _ => true
  | .pointer _ _ _ | .option _ | .sized _ _ | .literal _ => false

/-- The names and expressions in a chunk end where its brackets do, and a literal is a
word. -/
def Printable : Chunk → Prop
  | .bytes _ => True
  | .pointer target _ relative =>
    Text.Trimmed target.toList ∧
      (∀ c ∈ target.toList, c ≠ '[' ∧ c ≠ '<' ∧ c ≠ (brackets relative).2) ∧
      ¬ Expression.optionMark <+: target.toList
  | .option name =>
    Text.Trimmed name.toList ∧ ∀ c ∈ name.toList, c ≠ '[' ∧ c ≠ '<' ∧ c ≠ '>'
  | .sized _ expression => Text.Trimmed expression.toList ∧ Text.Balanced expression.toList
  | .literal value => ∃ pattern, value = .integer .u32 pattern

instance : DecidablePred Printable
  | .bytes _ => inferInstanceAs (Decidable True)
  | .pointer target _ relative =>
    have := List.decidableBAll (fun c => c ≠ '[' ∧ c ≠ '<' ∧ c ≠ (brackets relative).2)
      target.toList
    inferInstanceAs (Decidable (Text.Trimmed target.toList ∧
      (∀ c ∈ target.toList, c ≠ '[' ∧ c ≠ '<' ∧ c ≠ (brackets relative).2) ∧
      ¬ Expression.optionMark <+: target.toList))
  | .option name =>
    have := List.decidableBAll (fun c => c ≠ '[' ∧ c ≠ '<' ∧ c ≠ '>') name.toList
    inferInstanceAs (Decidable (Text.Trimmed name.toList ∧
      ∀ c ∈ name.toList, c ≠ '[' ∧ c ≠ '<' ∧ c ≠ '>'))
  | .sized _ expression =>
    inferInstanceAs (Decidable
      (Text.Trimmed expression.toList ∧ Text.Balanced expression.toList))
  | .literal value =>
    decidable_of_iff (value = .integer .u32 value.word.toBitVec) <| by
      constructor
      · exact fun h => ⟨_, h⟩
      · rintro ⟨pattern, rfl⟩
        exact congrArg (PatchValue.integer .u32) (BitVec.setWidth_eq pattern).symm

/-- A chunk that a code string can compile to. -/
inductive Compiled : Chunk → Prop
  | printable {chunk : Chunk} (h : chunk.Printable) : Compiled chunk
  | single (bits : UInt32) : Compiled (.literal (.single bits))
  | double (bits : UInt64) : Compiled (.literal (.double bits))
  | option {name : String} (h : '>' ∈ name.toList) : Compiled (.option name)

end Chunk

/-! ## One piece -/

namespace Piece

/-- A pointer is cut at its bracket.  If it cannot be, that does not make it an empty one. -/
theorem pointerText_cases (start : Nat) (relative : Bool) (offset : Nat) (text : List Char) :
    (∃ inner behind, Held relative inner ∧ text = inner ++ (brackets relative).2 :: behind) ∨
      ∃ e, pointerText start (brackets relative).2 offset text = .error e ∧
        ∀ place, e ≠ .emptyPointer place := by
  induction text generalizing offset with
  | nil => exact Or.inr ⟨_, rfl, nofun⟩
  | cons c rest ih =>
      by_cases hopen : c = '[' ∨ c = '<'
      · exact Or.inr ⟨.nestedPointer offset, if_pos hopen, nofun⟩
      · by_cases hclose : c = (brackets relative).2
        · exact Or.inl ⟨[], rest, fun d hd => absurd hd List.not_mem_nil, hclose ▸ rfl⟩
        · rcases ih (offset + c.utf8Size) with ⟨inner, behind, hheld, rfl⟩ | ⟨e, he, hkind⟩
          · refine Or.inl ⟨c :: inner, behind, fun d hd => ?_, rfl⟩
            rcases List.mem_cons.mp hd with rfl | hd
            · exact ⟨fun heq => hopen (Or.inl heq), fun heq => hopen (Or.inr heq), hclose⟩
            · exact hheld d hd
          · refine Or.inr ⟨e, ?_, hkind⟩
            rw [pointerText, if_neg hopen, if_neg hclose, he]
            rfl

theorem readPointer_cases (start : Nat) (relative : Bool) (text : List Char) :
    (∃ inner behind, Held relative inner ∧ text = inner ++ (brackets relative).2 :: behind) ∨
      ∃ e, readPointer start relative text = .error e ∧ ∀ place, e ≠ .emptyPointer place := by
  have hclose : (if relative = true then ']' else '>') = (brackets relative).2 := by
    cases relative <;> rfl
  refine (pointerText_cases start relative (start + 1) text).imp_right ?_
  rintro ⟨e, he, hkind⟩
  refine ⟨e, ?_, hkind⟩
  simp only [readPointer, hclose, he, bind, Except.bind]

theorem held_of_readPointer {start : Nat} {relative : Bool} {text : List Char} {piece : Piece}
    {length : Nat} (h : readPointer start relative text = .ok (piece, length)) :
    ∃ inner behind chunk, Held relative inner ∧ text = inner ++ (brackets relative).2 :: behind ∧
      Text.trim inner ≠ [] ∧ pointerChunk start relative (Text.trim inner) = .ok chunk ∧
      piece = .chunk chunk := by
  rcases readPointer_cases start relative text with ⟨inner, behind, hheld, rfl⟩ | ⟨e, he, -⟩
  · rw [readPointer_held start hheld] at h
    split at h
    · cases h
    · rename_i hsome
      rcases hchunk : pointerChunk start relative (Text.trim inner) with e | chunk
      · rw [hchunk] at h
        cases h
      · rw [hchunk] at h
        cases h
        exact ⟨inner, behind, chunk, hheld, rfl, hsome, hchunk, rfl⟩
  · rw [he] at h
    cases h

/-- What is in front of the `+` of a pointer names no option, as the whole does not. -/
theorem not_prefix_trim {mark name before behind : List Char} {plus : Char}
    (hname : Text.Trimmed name) (hmark : ¬ mark <+: name) (hsome : mark ≠ [])
    (hsplit : name = before ++ plus :: behind) : ¬ mark <+: Text.trim before := by
  intro hmarked
  cases before with
  | nil => exact hsome (List.prefix_nil.mp hmarked)
  | cons first rest =>
      have hfront : ∀ c ∈ (first :: rest).head?, Text.isBlank c = false := by
        intro c hc
        refine hname.front c ?_
        rw [hsplit]
        exact hc
      refine hmark (hmarked.trans ((Text.isPrefix_trim hfront).trans ?_))
      rw [hsplit]
      exact List.prefix_append ..

theorem pointerChunk_cases {start : Nat} {relative : Bool} {name : List Char} {chunk : Chunk}
    (h : pointerChunk start relative name = .ok chunk) :
    (∃ option, name = Expression.optionMark ++ option ∧
      chunk = .option (String.ofList (Text.trim option))) ∨
    ¬ Expression.optionMark <+: name ∧
      ('+' ∉ name ∧ chunk = .pointer (String.ofList name) 0 relative ∨
        ∃ target digits offset, name = target ++ '+' :: digits ∧ '+' ∉ digits ∧
          chunk = .pointer (String.ofList (Text.trim target)) offset relative) := by
  unfold pointerChunk at h
  split at h
  · rename_i option hoption
    cases h
    exact Or.inl ⟨option, Text.eq_append_of_after? hoption, rfl⟩
  · rename_i hoption
    refine Or.inr ⟨Text.after?_eq_none_iff.mp hoption, ?_⟩
    split at h
    · rename_i hsplit
      cases h
      exact Or.inl ⟨Text.splitLast?_eq_none_iff.mp hsplit, rfl⟩
    · rename_i target digits hsplit
      obtain ⟨hname, hlast⟩ := Text.splitLast?_eq_some_iff.mp hsplit
      rcases hoffset : pointerOffset start digits with e | offset
      · rw [hoffset] at h
        cases h
      · rw [hoffset] at h
        cases h
        exact Or.inr ⟨target, digits, offset, hname, hlast, rfl⟩

theorem compiled_pointerChunk {start : Nat} {relative : Bool} {name : List Char} {chunk : Chunk}
    (hname : Text.Trimmed name) (hplain : Held relative name)
    (h : pointerChunk start relative name = .ok chunk) :
    chunk.isBytes = false ∧ chunk.Compiled := by
  rcases pointerChunk_cases h with
    ⟨option, rfl, rfl⟩ | ⟨hmark, ⟨-, rfl⟩ | ⟨target, digits, offset, hparts, -, rfl⟩⟩
  · refine ⟨rfl, ?_⟩
    have hplain' : ∀ c ∈ Text.trim option, c ≠ '[' ∧ c ≠ '<' := by
      intro c hc
      obtain ⟨hsquare, hangle, -⟩ :=
        hplain c (List.mem_append_right _ (Text.mem_of_mem_trim hc))
      exact ⟨hsquare, hangle⟩
    by_cases hclose : '>' ∈ Text.trim option
    · refine .option ?_
      rwa [String.toList_ofList]
    · refine .printable ⟨?_, ?_⟩
      · rw [String.toList_ofList]
        exact Text.trimmed_trim option
      · rw [String.toList_ofList]
        intro c hc
        refine ⟨(hplain' c hc).1, (hplain' c hc).2, ?_⟩
        rintro rfl
        exact hclose hc
  · refine ⟨rfl, .printable ?_⟩
    simp only [Chunk.Printable, String.toList_ofList]
    exact ⟨hname, hplain, hmark⟩
  · refine ⟨rfl, .printable ?_⟩
    simp only [Chunk.Printable, String.toList_ofList]
    refine ⟨Text.trimmed_trim target, fun c hc => hplain c ?_,
      not_prefix_trim hname hmark (by decide) hparts⟩
    rw [hparts]
    exact List.mem_append_left _ (Text.mem_of_mem_trim hc)

theorem compiled_readPointer {start : Nat} {relative : Bool} {text : List Char} {chunk : Chunk}
    {length : Nat} (h : readPointer start relative text = .ok (.chunk chunk, length)) :
    chunk.isBytes = false ∧ chunk.Compiled := by
  obtain ⟨inner, behind, found, hheld, -, -, hstands, hpiece⟩ := held_of_readPointer h
  cases hpiece
  exact compiled_pointerChunk (Text.trimmed_trim inner)
    (fun c hc => hheld c (Text.mem_of_mem_trim hc)) hstands

theorem openBehind?_of_sizedText? {depth : Nat} {text inner : List Char}
    (h : sizedText? depth text = some inner) : Text.openBehind? depth inner = some 0 := by
  induction text generalizing depth inner with
  | nil => cases h
  | cons c rest ih =>
      simp only [sizedText?] at h
      split at h
      · rename_i hopen
        obtain ⟨found, hfound, rfl⟩ := Option.map_eq_some_iff.mp h
        simp only [Text.openBehind?, if_pos hopen]
        exact ih hfound
      · rename_i hopen
        split at h
        · rename_i hclose
          cases depth with
          | zero =>
              cases h
              rfl
          | succ depth =>
              obtain ⟨found, hfound, rfl⟩ := Option.map_eq_some_iff.mp h
              simp only [Text.openBehind?, if_neg hopen, if_pos hclose]
              exact ih hfound
        · rename_i hclose
          obtain ⟨found, hfound, rfl⟩ := Option.map_eq_some_iff.mp h
          simp only [Text.openBehind?, if_neg hopen, if_neg hclose]
          exact ih hfound

theorem openBehind?_width {text : List Char} {w : ValueWidth}
    (h : ValueWidth.ofName? (Text.trim text) = some w) (depth : Nat) :
    Text.openBehind? depth text = some depth := by
  unfold ValueWidth.ofName? at h
  have hfound := List.find?_some h
  have hname : w.name.toList = Text.trim text := eq_of_beq hfound
  rw [← Text.openBehind?_trim, ← hname]
  refine Text.openBehind?_plain ?_ depth
  cases w <;> simp [ValueWidth.name]

theorem compiled_readSized {start : Nat} {text : List Char} {chunk : Chunk} {length : Nat}
    (h : readSized start text = .ok (.chunk chunk, length)) :
    chunk.isBytes = false ∧ chunk.Compiled := by
  unfold readSized at h
  split at h
  · cases h
  · rename_i inner hinner
    split at h
    · cases h
    · rename_i width expression hsplit
      split at h
      · cases h
      · rename_i w hwidth
        cases h
        refine ⟨rfl, .printable ?_⟩
        simp only [Chunk.Printable, String.toList_ofList]
        refine ⟨Text.trimmed_trim expression, ?_⟩
        have hbalanced := openBehind?_of_sizedText? hinner
        rw [(Text.splitFirst?_eq_some hsplit).1, Text.openBehind?_append,
          openBehind?_width hwidth, Option.bind_some] at hbalanced
        unfold Text.Balanced
        rw [Text.openBehind?_trim]
        exact hbalanced

theorem compiled_number? {text : List Char} {value : PatchValue} (h : number? text = some value) :
    (Chunk.literal value).Compiled := by
  unfold number? at h
  dsimp only at h
  split at h
  · rename_i digits hdigits
    unfold hexNumber? at h
    split at h
    · cases h
      exact .printable ⟨_, rfl⟩
    · cases h
  · unfold floatNumber? at h
    split at h
    · obtain ⟨bits, -, rfl⟩ := Option.map_eq_some_iff.mp h
      exact .single bits
    · obtain ⟨bits, -, rfl⟩ := Option.map_eq_some_iff.mp h
      exact .single bits
    · obtain ⟨bits, -, rfl⟩ := Option.map_eq_some_iff.mp h
      exact .double bits

theorem compiled_readNumber {start : Nat} {text : List Char} {chunk : Chunk} {length : Nat}
    (h : readNumber start text = .ok (.chunk chunk, length)) :
    chunk.isBytes = false ∧ chunk.Compiled := by
  unfold readNumber at h
  dsimp only at h
  split at h
  · rename_i value hvalue
    cases h
    exact ⟨rfl, compiled_number? hvalue⟩
  · cases h

/-- Whatever is read as a chunk is not bytes, and has the parts that a chunk can have. -/
theorem compiled_read {offset : Nat} {c : Char} {rest : List Char} {chunk : Chunk} {length : Nat}
    (h : read offset c rest = .ok (.chunk chunk, length)) :
    chunk.isBytes = false ∧ chunk.Compiled := by
  unfold read at h
  split at h
  · cases h
  split at h
  · exact compiled_readPointer h
  split at h
  · exact compiled_readPointer h
  split at h
  · exact compiled_readSized h
  split at h
  · exact compiled_readNumber h
  split at h
  · cases h
  · cases h

theorem compiled_of_reads {text : List Char} {pieces : List Piece} (h : Reads text pieces)
    {chunk : Chunk} (hchunk : .chunk chunk ∈ pieces) : chunk.isBytes = false ∧ chunk.Compiled := by
  induction h with
  | done => exact absurd hchunk List.not_mem_nil
  | piece read later ih =>
      rcases List.mem_cons.mp hchunk with rfl | hchunk
      · exact compiled_read read
      · exact ih hchunk

end Piece

/-! ## Normal form -/

namespace Code

open Piece (together Reads)

/-- No chunk of bytes is empty, and no two of them are neighbours. -/
structure Normal (chunks : List Chunk) : Prop where
  filled : ∀ bytes, .bytes bytes ∈ chunks → bytes ≠ []
  apart : chunks.IsChain fun first second => ¬ (first.isBytes = true ∧ second.isBytes = true)

instance (chunks : List Chunk) : Decidable (Normal chunks) :=
  decidable_of_iff ((∀ chunk ∈ chunks, chunk ≠ .bytes []) ∧
      chunks.IsChain fun first second => ¬ (first.isBytes = true ∧ second.isBytes = true)) <| by
    constructor
    · rintro ⟨hfilled, hapart⟩
      refine ⟨?_, hapart⟩
      rintro bytes hmem rfl
      exact hfilled _ hmem rfl
    · rintro ⟨hfilled, hapart⟩
      refine ⟨?_, hapart⟩
      rintro chunk hmem rfl
      exact hfilled [] hmem rfl

theorem normal_nil : Normal [] :=
  ⟨nofun, .nil⟩

theorem normal_cons_iff {chunk : Chunk} {rest : List Chunk} :
    Normal (chunk :: rest) ↔ (∀ bytes, chunk = .bytes bytes → bytes ≠ []) ∧
      (∀ next ∈ rest.head?, ¬ (chunk.isBytes = true ∧ next.isBytes = true)) ∧ Normal rest := by
  constructor
  · rintro ⟨hfilled, hapart⟩
    obtain ⟨hnext, hrest⟩ := List.isChain_cons.mp hapart
    refine ⟨?_, hnext, fun bytes hbytes => hfilled bytes (List.mem_cons_of_mem _ hbytes), hrest⟩
    rintro bytes rfl
    exact hfilled bytes List.mem_cons_self
  · rintro ⟨hfirst, hnext, hrest⟩
    refine ⟨fun bytes hbytes => ?_, List.isChain_cons.mpr ⟨hnext, hrest.apart⟩⟩
    rcases List.mem_cons.mp hbytes with heq | hbytes
    · exact hfirst bytes heq.symm
    · exact hrest.filled bytes hbytes

/-- The step of the compiler: a piece in front of code in normal form. -/
theorem Normal.putBefore {chunks : List Chunk} (h : Normal chunks) {piece : Piece}
    (hpiece : ∀ chunk, piece = .chunk chunk → chunk.isBytes = false) :
    Normal (piece.putBefore chunks) := by
  cases piece with
  | blank => exact h
  | chunk value =>
      have hvalue := hpiece value rfl
      refine normal_cons_iff.mpr ⟨?_, ?_, h⟩
      · rintro bytes rfl
        cases hvalue
      · rintro next - ⟨hbytes, -⟩
        rw [hvalue] at hbytes
        cases hbytes
  | byte value =>
      have hsome : ∀ later bytes, Chunk.bytes (value :: later) = .bytes bytes → bytes ≠ [] := by
        rintro later bytes ⟨⟩
        exact List.cons_ne_nil _ _
      have hfront : (∀ next ∈ chunks.head?, next.isBytes = false) →
          Normal (.bytes [value] :: chunks) := by
        intro hnext
        refine normal_cons_iff.mpr ⟨hsome [], ?_, h⟩
        rintro next hmem ⟨-, hbytes⟩
        rw [hnext next hmem] at hbytes
        cases hbytes
      cases chunks with
      | nil => exact hfront nofun
      | cons first rest =>
          cases first with
          | bytes later =>
              obtain ⟨-, hnext, hrest⟩ := normal_cons_iff.mp h
              exact normal_cons_iff.mpr ⟨hsome later, hnext, hrest⟩
          | pointer | option | sized | literal =>
              refine hfront ?_
              rintro next ⟨⟩
              rfl

theorem normal_together {pieces : List Piece}
    (h : ∀ chunk, .chunk chunk ∈ pieces → chunk.isBytes = false) : Normal (together pieces []) := by
  induction pieces with
  | nil => exact normal_nil
  | cons piece rest ih =>
      have hrest := ih fun chunk hchunk => h chunk (List.mem_cons_of_mem _ hchunk)
      refine hrest.putBefore ?_
      rintro chunk rfl
      exact h chunk List.mem_cons_self

theorem mem_of_mem_together {pieces : List Piece} {chunk : Chunk}
    (h : chunk ∈ together pieces []) : chunk.isBytes = true ∨ .chunk chunk ∈ pieces := by
  induction pieces with
  | nil => exact absurd h List.not_mem_nil
  | cons piece rest ih =>
      have hlater : chunk ∈ together rest [] →
          chunk.isBytes = true ∨ .chunk chunk ∈ piece :: rest := fun hchunk =>
        (ih hchunk).imp_right (List.mem_cons_of_mem _)
      have hcons : chunk ∈ piece.putBefore (together rest []) := h
      unfold Piece.putBefore at hcons
      split at hcons
      · exact hlater hcons
      · rename_i later chunks htogether
        rcases List.mem_cons.mp hcons with rfl | hcons
        · exact Or.inl rfl
        · exact hlater (htogether ▸ List.mem_cons_of_mem _ hcons)
      · rcases List.mem_cons.mp hcons with rfl | hcons
        · exact Or.inl rfl
        · exact hlater hcons
      · rcases List.mem_cons.mp hcons with rfl | hcons
        · exact Or.inr List.mem_cons_self
        · exact hlater hcons

/-- Code strings compile to code in normal form. -/
theorem normal_compile {text : String} {code : Code} (h : compile text = .ok code) :
    Normal code.chunks ∧ ∀ chunk ∈ code.chunks, chunk.Compiled := by
  obtain ⟨pieces, hreads, hchunks⟩ := compile_eq_ok_iff.mp h
  rw [hchunks]
  refine ⟨normal_together fun chunk hchunk => (Piece.compiled_of_reads hreads hchunk).1, ?_⟩
  intro chunk hchunk
  rcases mem_of_mem_together hchunk with hbytes | hpiece
  · cases chunk with
    | bytes bytes => exact .printable trivial
    | pointer | option | sized | literal => cases hbytes
  · exact (Piece.compiled_of_reads hreads hpiece).2

end Code
end CodePatch
