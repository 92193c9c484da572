/-
# Compiling undoes printing

Code in normal form can be printed so that it compiles to itself
(`compile_undoes_print`).  Each chunk becomes words with blanks between them, and every
word is read as the pieces that it was printed from.  Where a word ends is what has to be
shown for each kind of chunk on its own: bytes after two digits, a pointer and an option at
the first closing bracket, a sized expression where its parentheses balance, and a number
at the blank.  What is inside of a word cannot be taken for something else: the offset of a
pointer is behind its last `+`, and the width of an expression in front of its first colon.

Blanks leave no chunk behind, and neighbouring bytes come together in one.  That is where
the normal form is needed: what was one chunk of bytes is one again, and what were two
cannot have been neighbours.
-/
import CodePatch.Proofs.Code.Normal
import CodePatch.Proofs.Text.HexDigits

namespace CodePatch

/-! ## The printer -/

/-- How digits are spelled: with capital letters or not, and the bytes of a chunk with
blanks between them or not. -/
structure Spelling where
  upper : Bool
  spaced : Bool

namespace Chunk

/-- The words that a chunk is printed as. -/
def words (spelling : Spelling) : Chunk → List (List Char)
  | .bytes data =>
    if spelling.spaced then data.map (Text.byteInHex spelling.upper)
    else [data.flatMap (Text.byteInHex spelling.upper)]
  | .pointer target offset relative =>
    [inBrackets relative
      (target.toList ++ '+' :: Text.hexDigits spelling.upper offset.toNat)]
  | .option name => [inBrackets false (Expression.optionMark ++ name.toList)]
  | .sized width expression =>
    ['(' :: (width.name.toList ++ ':' :: ' ' :: expression.toList ++ [')'])]
  | .literal value => ['0' :: 'x' :: Text.hexDigits spelling.upper value.word.toNat]

/-- The pieces that a chunk is put together from. -/
def pieces : Chunk → List Piece
  | .bytes data => data.map .byte
  | chunk => [.chunk chunk]

end Chunk

/-- Chunks as a code string, with a blank between two words. -/
def Code.print (spelling : Spelling) (chunks : List Chunk) : String :=
  String.ofList ([' '].intercalate (chunks.flatMap (Chunk.words spelling)))

/-! ## Words -/

namespace Text

/-- A mark stays in front of nothing when a character is added that is not in it. -/
theorem not_prefix_append {mark text : List Char} {c : Char} (hmark : ¬ mark <+: text)
    (hc : c ∉ mark) (rest : List Char) : ¬ mark <+: text ++ c :: rest := by
  intro hmarked
  rcases List.prefix_or_prefix_of_prefix hmarked (List.prefix_append text (c :: rest)) with
    hshort | ⟨more, hmore⟩
  · exact hmark hshort
  · rw [← hmore, List.prefix_append_right_inj] at hmarked
    cases more with
    | nil => exact hmark (hmore ▸ (List.append_nil text).symm ▸ List.prefix_refl text)
    | cons first more =>
        obtain ⟨rfl, -⟩ := List.cons_prefix_cons.mp hmarked
        exact hc (hmore ▸ List.mem_append_right text List.mem_cons_self)

end Text

namespace Piece

/-- Words that are read as pieces, each on its own. -/
inductive ReadsEach : List (List Char) → List Piece → Prop where
  | nil : ReadsEach [] []
  | cons {word : List Char} {words : List (List Char)} {front back : List Piece}
      (first : Reads word front) (later : ReadsEach words back) :
      ReadsEach (word :: words) (front ++ back)

theorem ReadsEach.single {word : List Char} {pieces : List Piece} (h : Reads word pieces) :
    ReadsEach [word] pieces :=
  List.append_nil pieces ▸ .cons h .nil

theorem ReadsEach.append {words more : List (List Char)} {pieces later : List Piece}
    (h : ReadsEach words pieces) (h' : ReadsEach more later) :
    ReadsEach (words ++ more) (pieces ++ later) := by
  induction h with
  | nil => exact h'
  | cons first _ ih =>
      rw [List.append_assoc]
      exact .cons first ih

theorem together_append (front back : List Piece) (later : List Chunk) :
    together (front ++ back) later = together front (together back later) :=
  List.foldr_append

theorem ReadsEach.intercalate {words : List (List Char)} {pieces : List Piece}
    (h : ReadsEach words pieces) : ∃ spaced, Reads ([' '].intercalate words) spaced ∧
      ∀ later, together spaced later = together pieces later := by
  induction h with
  | nil => exact ⟨[], .done, fun _ => rfl⟩
  | @cons word words front back first later ih =>
      cases later with
      | nil =>
          rw [List.append_nil]
          refine ⟨front, ?_, fun _ => rfl⟩
          rwa [List.intercalate_singleton]
      | @cons next words _ _ _ _ =>
          obtain ⟨spaced, hspaced, htogether⟩ := ih
          refine ⟨front ++ .blank :: spaced, ?_, fun later => ?_⟩
          · rw [List.intercalate_cons_cons, List.append_assoc]
            exact first.append (breaks_space _) hspaced.blank
          · have hblank : together (.blank :: spaced) later = together spaced later := rfl
            rw [together_append, together_append, hblank, htogether]

/-! ## Bytes -/

theorem isSpace_of_isHexDigit {c : Char} (h : Text.isHexDigit c = true) : isSpace c = false := by
  have hne : ∀ mark, Text.isHexDigit mark = false → c ≠ mark := fun _ => Text.ne_of_isHexDigit h
  simp only [isSpace, Bool.or_eq_false_iff, decide_eq_false_iff_not]
  exact ⟨⟨⟨⟨hne _ rfl, hne _ rfl⟩, hne _ rfl⟩, hne _ rfl⟩, hne _ rfl⟩

theorem endsNumber_of_isHexDigit {c : Char} (h : Text.isHexDigit c = true) :
    endsNumber c = false := by
  have hne : ∀ mark, Text.isHexDigit mark = false → c ≠ mark := fun _ => Text.ne_of_isHexDigit h
  simp only [endsNumber, Bool.or_eq_false_iff, decide_eq_false_iff_not]
  exact ⟨⟨⟨isSpace_of_isHexDigit h, hne _ rfl⟩, hne _ rfl⟩, hne _ rfl⟩

/-- Two digits are a byte, and never a number: no digit is an `x`. -/
theorem read_digits {high low : Char} {h l : Nat} (hhigh : Text.hexDigit? high = some h)
    (hlow : Text.hexDigit? low = some l) (rest : List Char) :
    read 0 high (low :: rest) = .ok (.byte (UInt8.ofNat (16 * h + l)), 2) := by
  have hne : ∀ mark, Text.isHexDigit mark = false → high ≠ mark := fun _ =>
    Text.ne_of_isHexDigit (Option.isSome_of_eq_some hhigh)
  have hne' : ∀ mark, Text.isHexDigit mark = false → low ≠ mark := fun _ =>
    Text.ne_of_isHexDigit (Option.isSome_of_eq_some hlow)
  have hspace := isSpace_of_isHexDigit (Option.isSome_of_eq_some hhigh)
  have hnumber : ¬ startsNumber (high :: low :: rest) = true := by
    rw [startsNumber_iff]
    rintro (heq | heq | heq | ⟨-, heq | heq⟩)
    · exact hne _ rfl heq
    · exact hne _ rfl heq
    · exact hne _ rfl heq
    · exact hne' _ rfl (Option.some.inj heq)
    · exact hne' _ rfl (Option.some.inj heq)
  have hbyte : byte? (high :: low :: rest) = some (UInt8.ofNat (16 * h + l)) := by
    simp only [byte?, hhigh, hlow]
    rfl
  unfold read
  rw [hspace, if_neg Bool.false_ne_true, if_neg (hne _ rfl), if_neg (hne _ rfl),
    if_neg (hne _ rfl), if_neg hnumber, hbyte]

theorem Reads.byteInHex (upper : Bool) (b : UInt8) {text : List Char} {pieces : List Piece}
    (h : Reads text pieces) : Reads (Text.byteInHex upper b ++ text) (.byte b :: pieces) := by
  have hb : b.toNat < 256 := b.toNat_lt
  have hvalue : UInt8.ofNat (16 * (b.toNat / 16) + b.toNat % 16) = b := by
    rw [Nat.div_add_mod]
    exact UInt8.ofNat_toNat
  have hread := read_digits (Text.hexDigit?_cased upper (by omega : b.toNat / 16 < 16))
    (Text.hexDigit?_cased upper (by omega : b.toNat % 16 < 16)) text
  rw [hvalue] at hread
  exact .piece hread h

theorem reads_bytes (upper : Bool) (bytes : List UInt8) :
    Reads (bytes.flatMap (Text.byteInHex upper)) (bytes.map .byte) := by
  induction bytes with
  | nil => exact .done
  | cons b rest ih => exact ih.byteInHex upper b

theorem readsEach_bytes (upper : Bool) (bytes : List UInt8) :
    ReadsEach (bytes.map (Text.byteInHex upper)) (bytes.map .byte) := by
  induction bytes with
  | nil => exact .nil
  | cons b rest ih =>
      have hfirst := Reads.done.byteInHex upper b
      rw [List.append_nil] at hfirst
      exact .cons hfirst ih

/-! ## Pointers and options -/

/-- An offset is read back, behind the last `+`. -/
theorem pointerChunk_offset (upper : Bool) {target : String} (htarget : Text.Trimmed target.toList)
    (hmark : ¬ Expression.optionMark <+: target.toList) (offset : UInt32) (relative : Bool) :
    pointerChunk 0 relative (target.toList ++ '+' :: Text.hexDigits upper offset.toNat) =
      .ok (.pointer target offset relative) := by
  have hoption : Text.after? ['o', 'p', 't', 'i', 'o', 'n', ':']
      (target.toList ++ '+' :: Text.hexDigits upper offset.toNat) = none :=
    Text.after?_eq_none_iff.mpr (Text.not_prefix_append hmark (by decide) _)
  have hsplit : Text.splitLast? '+' (target.toList ++ '+' :: Text.hexDigits upper offset.toNat) =
      some (target.toList, Text.hexDigits upper offset.toNat) :=
    Text.splitLast?_eq_some_iff.mpr ⟨rfl, fun hplus =>
      Text.ne_of_isHexDigit (Text.isHexDigit_of_mem_hexDigits _ hplus) rfl rfl⟩
  have hdigits : Text.Trimmed (Text.hexDigits upper offset.toNat) :=
    Text.trimmed_of_forall fun c hc =>
      Text.isBlank_of_isHexDigit (Text.isHexDigit_of_mem_hexDigits c hc)
  simp only [pointerChunk, hoption, hsplit, pointerOffset, hdigits.trim_eq,
    Text.readHexAddress_hexDigits, htarget.trim_eq, String.ofList_toList]
  rfl

theorem reads_pointer (upper : Bool) {target : String} {offset : UInt32} {relative : Bool}
    (h : (Chunk.pointer target offset relative).Printable) :
    Reads (inBrackets relative (target.toList ++ '+' :: Text.hexDigits upper offset.toNat))
      [.chunk (.pointer target offset relative)] := by
  obtain ⟨htarget, hplain, hmark⟩ := h
  have hbehind : ∀ c ∈ '+' :: Text.hexDigits upper offset.toNat,
      c = '+' ∨ Text.isHexDigit c = true := by
    intro c hc
    rcases List.mem_cons.mp hc with rfl | hc
    · exact Or.inl rfl
    · exact Or.inr (Text.isHexDigit_of_mem_hexDigits c hc)
  refine reads_inBrackets ?_ ?_ ?_ (pointerChunk_offset upper htarget hmark offset relative)
  · intro c hc
    rcases List.mem_append.mp hc with hc | hc
    · exact hplain c hc
    · have hclose : Text.isHexDigit (brackets relative).2 = false ∧
          '+' ≠ (brackets relative).2 := by
        cases relative <;> decide
      rcases hbehind c hc with rfl | hdigit
      · exact ⟨by decide, by decide, hclose.2⟩
      · exact ⟨Text.ne_of_isHexDigit hdigit rfl, Text.ne_of_isHexDigit hdigit rfl,
          Text.ne_of_isHexDigit hdigit hclose.1⟩
  · refine (htarget.append (Text.trimmed_of_forall fun c hc => ?_)).trim_eq
    rcases hbehind c hc with rfl | hdigit
    · rfl
    · exact Text.isBlank_of_isHexDigit hdigit
  · exact List.append_ne_nil_of_right_ne_nil _ (List.cons_ne_nil _ _)

theorem reads_option {name : String} (h : (Chunk.option name).Printable) :
    Reads (inBrackets false (Expression.optionMark ++ name.toList)) [.chunk (.option name)] := by
  obtain ⟨hname, hplain⟩ := h
  have hmark : Text.Trimmed Expression.optionMark := by
    constructor
    · rintro c ⟨⟩
      rfl
    · rintro c ⟨⟩
      rfl
  have hmarkPlain : ∀ c ∈ Expression.optionMark, c ≠ '[' ∧ c ≠ '<' ∧ c ≠ '>' := by
    simp [Expression.optionMark]
  have hafter : Text.after? ['o', 'p', 't', 'i', 'o', 'n', ':']
      (Expression.optionMark ++ name.toList) = some name.toList := Text.after?_append ..
  have hchunk : pointerChunk 0 false (Expression.optionMark ++ name.toList) =
      .ok (.option name) := by
    simp only [pointerChunk, hafter, hname.trim_eq, String.ofList_toList]
  refine reads_inBrackets (fun c hc => ?_) (hmark.append hname).trim_eq
    (List.append_ne_nil_of_left_ne_nil (List.cons_ne_nil _ _) _) hchunk
  rcases List.mem_append.mp hc with hc | hc
  · exact hmarkPlain c hc
  · exact hplain c hc

/-! ## Sized expressions -/

theorem sizedText?_append_close {depth : Nat} {text : List Char}
    (h : Text.openBehind? depth text = some 0) (rest : List Char) :
    sizedText? depth (text ++ ')' :: rest) = some text := by
  induction text generalizing depth with
  | nil =>
      obtain rfl := Option.some.inj h
      rfl
  | cons c more ih =>
      simp only [Text.openBehind?] at h
      simp only [List.cons_append, sizedText?]
      split
      · rename_i hopen
        rw [if_pos hopen] at h
        rw [ih h, Option.map_some]
      · rename_i hopen
        rw [if_neg hopen] at h
        split
        · rename_i hclose
          rw [if_pos hclose] at h
          cases depth with
          | zero => cases h
          | succ depth => simp only [ih h, Option.map_some]
        · rename_i hclose
          rw [if_neg hclose] at h
          rw [ih h, Option.map_some]

theorem ofName?_name (w : ValueWidth) : ValueWidth.ofName? (Text.trim w.name.toList) = some w := by
  cases w <;> decide +kernel

theorem reads_sizedExpression {w : ValueWidth} {expression : String}
    (h : (Chunk.sized w expression).Printable) :
    Reads ('(' :: (w.name.toList ++ ':' :: ' ' :: expression.toList ++ [')']))
      [.chunk (.sized w expression)] := by
  obtain ⟨htrimmed, hbalanced⟩ := h
  have hopen : Text.openBehind? 0 (w.name.toList ++ ':' :: ' ' :: expression.toList) = some 0 := by
    rw [Text.openBehind?_append, openBehind?_width (ofName?_name w), Option.bind_some]
    exact hbalanced
  have hsplit : Text.splitFirst? ':' (w.name.toList ++ ':' :: ' ' :: expression.toList) =
      some (w.name.toList, ' ' :: expression.toList) := by
    refine Text.splitFirst?_append _ _ ?_
    cases w <;> simp [ValueWidth.name]
  have hblank : Text.trim (' ' :: expression.toList) = expression.toList := htrimmed.trim_eq
  have hreads := reads_inParentheses (sizedText?_append_close hopen []) hsplit (ofName?_name w)
  rwa [hblank, String.ofList_toList] at hreads

/-! ## Numbers -/

theorem number?_hexDigits (upper : Bool) (value : UInt32) :
    number? ('0' :: 'x' :: Text.hexDigits upper value.toNat) =
      some (.integer .u32 value.toBitVec) := by
  have hnumber : number? ('0' :: 'x' :: Text.hexDigits upper value.toNat) =
      hexNumber? false (Text.hexDigits upper value.toNat) := rfl
  have hvalue : BitVec.ofInt 32 (value.toNat : Int) = value.toBitVec := by
    rw [BitVec.ofInt_natCast]
    exact BitVec.ofNat_toNat ..
  rw [hnumber, hexNumber?, Text.readUnsigned_hexDigits upper value.toNat_lt]
  exact congrArg (fun pattern => some (PatchValue.integer .u32 pattern)) hvalue

theorem reads_literal (upper : Bool) {value : PatchValue} (h : (Chunk.literal value).Printable) :
    Reads ('0' :: 'x' :: Text.hexDigits upper value.word.toNat) [.chunk (.literal value)] := by
  obtain ⟨pattern, rfl⟩ := h
  have hall : ∀ c ∈ '0' :: 'x' :: Text.hexDigits upper (IntegerType.u32.word pattern).toNat,
      (!endsNumber c) = true := by
    intro c hc
    rcases List.mem_cons.mp hc with rfl | hc
    · rfl
    rcases List.mem_cons.mp hc with rfl | hc
    · rfl
    · rw [endsNumber_of_isHexDigit (Text.isHexDigit_of_mem_hexDigits c hc)]
      rfl
  have hpattern : (IntegerType.u32.word pattern).toBitVec = pattern := BitVec.setWidth_eq pattern
  have hread : read 0 '0' ('x' :: Text.hexDigits upper (IntegerType.u32.word pattern).toNat) =
      readNumber 0 ('0' :: 'x' :: Text.hexDigits upper (IntegerType.u32.word pattern).toNat) := rfl
  rw [readNumber, List.takeWhile_eq_self_iff.mpr hall, number?_hexDigits, hpattern] at hread
  exact .single hread

theorem readsEach_words (spelling : Spelling) {chunk : Chunk} (h : chunk.Printable) :
    ReadsEach (chunk.words spelling) chunk.pieces := by
  cases chunk with
  | bytes bytes =>
      simp only [Chunk.words]
      split
      · exact readsEach_bytes spelling.upper bytes
      · exact .single (reads_bytes spelling.upper bytes)
  | pointer target offset relative => exact .single (reads_pointer spelling.upper h)
  | option name => exact .single (reads_option h)
  | sized width expression => exact .single (reads_sizedExpression h)
  | literal value => exact .single (reads_literal spelling.upper h)

/-! ## All chunks -/

theorem together_bytes {bytes : List UInt8} (hsome : bytes ≠ []) {later : List Chunk}
    (hnext : ∀ next ∈ later.head?, next.isBytes = false) :
    together (bytes.map .byte) later = .bytes bytes :: later := by
  induction bytes with
  | nil => exact absurd rfl hsome
  | cons b rest ih =>
      cases rest with
      | nil =>
          cases later with
          | nil => rfl
          | cons next later =>
              have hother := hnext next rfl
              cases next with
              | bytes bytes => cases hother
              | pointer | option | sized | literal => rfl
      | cons b' rest =>
          have hrest := ih (List.cons_ne_nil _ _)
          rw [List.map_cons]
          exact congrArg (putBefore (.byte b)) hrest

end Piece

namespace Code

open Piece (together Reads ReadsEach)

theorem readsEach_words {chunks : List Chunk} (spelling : Spelling)
    (h : ∀ chunk ∈ chunks, chunk.Printable) :
    ReadsEach (chunks.flatMap (Chunk.words spelling)) (chunks.flatMap Chunk.pieces) := by
  induction chunks with
  | nil => exact .nil
  | cons chunk rest ih =>
      rw [List.flatMap_cons, List.flatMap_cons]
      exact (Piece.readsEach_words spelling (h chunk List.mem_cons_self)).append
        (ih fun chunk hchunk => h chunk (List.mem_cons_of_mem _ hchunk))

/-- In normal form, the pieces of the chunks give the chunks back. -/
theorem together_pieces {chunks : List Chunk} (h : Normal chunks) :
    together (chunks.flatMap Chunk.pieces) [] = chunks := by
  induction chunks with
  | nil => rfl
  | cons chunk rest ih =>
      obtain ⟨hfirst, hnext, hrest⟩ := normal_cons_iff.mp h
      rw [List.flatMap_cons, Piece.together_append, ih hrest]
      cases chunk with
      | bytes bytes =>
          refine Piece.together_bytes (hfirst bytes rfl) fun next hmem => ?_
          have hother := hnext next hmem
          exact Bool.eq_false_iff.mpr fun hbytes => hother ⟨rfl, hbytes⟩
      | pointer | option | sized | literal => rfl

/-- Printing and compiling: what is printed compiles to itself, and whatever compiles is in
the normal form that this needs. -/
theorem compile_undoes_print :
    (∀ spelling chunks, Normal chunks → (∀ chunk ∈ chunks, chunk.Printable) →
      compile (print spelling chunks) = .ok ⟨chunks⟩) ∧
    ∀ text code, compile text = .ok code →
      Normal code.chunks ∧ ∀ chunk ∈ code.chunks, chunk.Compiled := by
  refine ⟨fun spelling chunks hnormal hprintable => ?_, fun text code => normal_compile⟩
  obtain ⟨pieces, hreads, htogether⟩ := (readsEach_words spelling hprintable).intercalate
  refine compile_eq_ok_iff.mpr ⟨pieces, ?_, ?_⟩
  · rwa [print, String.toList_ofList]
  · rw [htogether, together_pieces hnormal]

/-- Code of all kinds of chunks, with marks inside of names and expressions. -/
def sampleChunks : List Chunk :=
  [.bytes [0xB8, 0x0A], .pointer "a>b+c" 0x1F true, .pointer "p]q" 0 false, .option "max+1",
    .sized .u16 "(1 ? (2) : 3) + [x]", .bytes [0x00], .literal (.integer .u32 0xBEEF)]

theorem sample_compile_undoes_print :
    (Normal sampleChunks ∧ (∀ chunk ∈ sampleChunks, chunk.Printable) ∧
      compile "B8 0A [a>b+c+1F] <p]q+0> <option:max+1> (u16: (1 ? (2) : 3) + [x]) 00 0xBEEF" =
        .ok ⟨sampleChunks⟩ ∧
      compile "b80a [a>b+c+1f] <p]q+0> <option:max+1> (u16: (1 ? (2) : 3) + [x]) 00 0xbeef" =
        .ok ⟨sampleChunks⟩) ∧
    compile "90c3(i8:1)0x1 90" =
      .ok ⟨[.bytes [0x90, 0xC3], .sized .i8 "1", .literal (.integer .u32 1), .bytes [0x90]]⟩ ∧
    Normal [.bytes [0x90, 0xC3], .sized .i8 "1", .literal (.integer .u32 1), .bytes [0x90]] := by
  have hnormal : Normal sampleChunks := by decide
  have hprintable : ∀ chunk ∈ sampleChunks, chunk.Printable := by decide +kernel
  have hprint := fun spelling => compile_undoes_print.1 spelling sampleChunks hnormal hprintable
  have hcompile : compile "90c3(i8:1)0x1 90" = .ok ⟨[.bytes [0x90, 0xC3], .sized .i8 "1",
      .literal (.integer .u32 1), .bytes [0x90]]⟩ := by decide +kernel
  refine ⟨⟨hnormal, hprintable, ?_, ?_⟩, hcompile, (compile_undoes_print.2 _ _ hcompile).1⟩
  · have htext : print ⟨true, true⟩ sampleChunks =
        "B8 0A [a>b+c+1F] <p]q+0> <option:max+1> (u16: (1 ? (2) : 3) + [x]) 00 0xBEEF" := by
      decide +kernel
    exact htext ▸ hprint ⟨true, true⟩
  · have htext : print ⟨false, false⟩ sampleChunks =
        "b80a [a>b+c+1f] <p]q+0> <option:max+1> (u16: (1 ? (2) : 3) + [x]) 00 0xbeef" := by
      decide +kernel
    exact htext ▸ hprint ⟨false, false⟩

end Code
end CodePatch
