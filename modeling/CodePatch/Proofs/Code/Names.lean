/-
# Names in code

Pointers and options of a code string have names, cut out between brackets.  Trimming takes
the blanks off every one of them (`named_pointerChunk`), and a pair of brackets with nothing but
blanks in it is refused where it is met.

That is asked of the whole text between the brackets, before it is taken apart, and so does not
keep names from being empty: where only the mark of options stands there, or only an offset, the
name is (`Nameless`).  These are all the ways to an empty name (`empty_name_iff`).

Where brackets are met is said by `Reaches`: at a place with nothing but readable pieces in
front.  Compiling stops at the first one that cannot be read, and its offset is the one reported
(`compile_eq_error_iff`).
-/
import CodePatch.Proofs.Code.Normal
import CodePatch.Proofs.Text.Utf8

namespace CodePatch

/-- The name in a chunk: where a pointer leads to, or which option it stands for. -/
def Chunk.name? : Chunk → Option String
  | .pointer target _ _ => some target
  | .option name => some name
  | .bytes _ | .sized _ _ | .literal _ => none

theorem inBrackets_append (relative : Bool) (inner behind : List Char) :
    (brackets relative).1 :: (inner ++ (brackets relative).2 :: behind) =
      inBrackets relative inner ++ behind := by
  rw [inBrackets, List.cons_append, List.append_assoc, List.singleton_append]

theorem map_eq_error_iff {ε α β : Type} {result : Except ε α} {f : α → β} {e : ε} :
    (do let value ← result; return f value) = .error e ↔ result = .error e := by
  cases result with
  | error found =>
      exact ⟨fun h => congrArg _ (Except.error.inj h), fun h => congrArg _ (Except.error.inj h)⟩
  | ok value => exact iff_of_false nofun nofun

namespace Piece

/-! ## Between brackets -/

/-- A text that is there and names nothing all the same: the mark of options, or an offset. -/
def Nameless (name : List Char) : Prop :=
  name = Expression.optionMark ∨ ∃ digits, name = '+' :: digits ∧ '+' ∉ digits

/-- Whatever brackets stand for has a name, without blanks around it.  It is empty only if the text
between the brackets names nothing. -/
theorem named_pointerChunk {start : Nat} {relative : Bool} {name : List Char} {chunk : Chunk}
    (hname : Text.Trimmed name) (hsome : name ≠ [])
    (h : pointerChunk start relative name = .ok chunk) :
    ∃ found, chunk.name? = some found ∧ Text.Trimmed found.toList ∧
      (found = "" ↔ Nameless name) := by
  rcases pointerChunk_cases h with
    ⟨option, rfl, rfl⟩ | ⟨hmark, ⟨hplus, rfl⟩ | ⟨target, digits, offset, rfl, hlast, rfl⟩⟩
  · refine ⟨_, rfl, String.toList_ofList ▸ Text.trimmed_trim option, ?_⟩
    rw [← String.toList_eq_nil_iff, String.toList_ofList]
    constructor
    · intro hempty
      obtain rfl := hname.back_eq_nil hempty
      exact Or.inl (List.append_nil _)
    · rintro (hmark | ⟨digits, hdigits, -⟩)
      · rw [List.append_right_eq_self.mp hmark]
        rfl
      · cases hdigits
  · refine ⟨_, rfl, String.toList_ofList ▸ hname, ?_⟩
    rw [← String.toList_eq_nil_iff, String.toList_ofList]
    refine iff_of_false hsome ?_
    rintro (rfl | ⟨digits, rfl, -⟩)
    · exact hmark (List.prefix_refl _)
    · exact hplus List.mem_cons_self
  · refine ⟨_, rfl, String.toList_ofList ▸ Text.trimmed_trim target, ?_⟩
    rw [← String.toList_eq_nil_iff, String.toList_ofList]
    constructor
    · intro hempty
      obtain rfl := hname.front_eq_nil hempty
      exact Or.inr ⟨digits, rfl, hlast⟩
    · rintro (heq | ⟨digits', hdigits, hlast'⟩)
      · exact absurd (heq ▸ List.prefix_refl _) hmark
      · have hsplit : Text.splitLast? '+' (target ++ '+' :: digits) = some (target, digits) :=
          Text.splitLast?_eq_some_iff.mpr ⟨rfl, hlast⟩
        have hsplit' : Text.splitLast? '+' (target ++ '+' :: digits) = some ([], digits') :=
          Text.splitLast?_eq_some_iff.mpr ⟨hdigits, hlast'⟩
        rw [hsplit] at hsplit'
        cases hsplit'
        rfl

theorem pointerChunk_ne_emptyPointer {start offset : Nat} {relative : Bool} {name : List Char} :
    pointerChunk start relative name ≠ .error (.emptyPointer offset) := by
  intro h
  unfold pointerChunk pointerOffset at h
  split at h
  · cases h
  · split at h
    · cases h
    · dsimp only at h
      split at h
      · cases h
      · cases h

/-! ## One piece -/

theorem read_of_ne_bracket {start : Nat} {c : Char} {rest : List Char}
    (hne : ∀ relative, c ≠ (brackets relative).1) :
    (∀ chunk length, read start c rest = .ok (.chunk chunk, length) → chunk.name? = none) ∧
      ∀ offset, read start c rest ≠ .error (.emptyPointer offset) := by
  have hrelative : c ≠ '[' := hne true
  have habsolute : c ≠ '<' := hne false
  unfold read
  rw [if_neg hrelative, if_neg habsolute]
  split
  · exact ⟨nofun, nofun⟩
  split
  · unfold readSized
    split
    · exact ⟨nofun, nofun⟩
    split
    · exact ⟨nofun, nofun⟩
    split
    · exact ⟨nofun, nofun⟩
    · refine ⟨?_, nofun⟩
      rintro chunk length ⟨⟩
      rfl
  split
  · unfold readNumber
    dsimp only
    split
    · refine ⟨?_, nofun⟩
      rintro chunk length ⟨⟩
      rfl
    · exact ⟨nofun, nofun⟩
  split
  · exact ⟨nofun, nofun⟩
  · exact ⟨nofun, nofun⟩

theorem inBrackets_of_read {start : Nat} {c : Char} {rest : List Char} {chunk : Chunk}
    {length : Nat} {name : String} (h : read start c rest = .ok (.chunk chunk, length))
    (hname : chunk.name? = some name) :
    ∃ relative inner behind, Held relative inner ∧ c :: rest = inBrackets relative inner ++ behind ∧
      Text.trim inner ≠ [] ∧ pointerChunk start relative (Text.trim inner) = .ok chunk := by
  by_cases hbracket : ∃ relative, c = (brackets relative).1
  · obtain ⟨relative, rfl⟩ := hbracket
    rw [read_bracket] at h
    obtain ⟨inner, behind, found, hheld, rfl, hsome, hstands, hpiece⟩ := held_of_readPointer h
    cases hpiece
    exact ⟨relative, inner, behind, hheld, inBrackets_append .., hsome, hstands⟩
  · have hnone := (read_of_ne_bracket (not_exists.mp hbracket)).1 chunk length h
    rw [hnone] at hname
    cases hname

/-- Brackets are refused as empty exactly if they hold nothing but blanks. -/
theorem read_eq_emptyPointer_iff {start offset : Nat} {c : Char} {rest : List Char} :
    read start c rest = .error (.emptyPointer offset) ↔
      ∃ relative inner behind, Held relative inner ∧
        c :: rest = inBrackets relative inner ++ behind ∧ Text.trim inner = [] ∧
          offset = start := by
  constructor
  · intro h
    by_cases hbracket : ∃ relative, c = (brackets relative).1
    · obtain ⟨relative, rfl⟩ := hbracket
      rw [read_bracket] at h
      rcases readPointer_cases start relative rest with ⟨inner, behind, hheld, rfl⟩ | ⟨e, he, hkind⟩
      · rw [readPointer_held start hheld] at h
        split at h
        · rename_i hempty
          cases h
          exact ⟨relative, inner, behind, hheld, inBrackets_append .., hempty, rfl⟩
        · rcases hchunk : pointerChunk start relative (Text.trim inner) with e | found
          · rw [hchunk] at h
            cases h
            exact absurd hchunk pointerChunk_ne_emptyPointer
          · rw [hchunk] at h
            cases h
      · rw [he] at h
        cases h
        exact absurd rfl (hkind offset)
    · exact absurd h ((read_of_ne_bracket (not_exists.mp hbracket)).2 offset)
  · rintro ⟨relative, inner, behind, hheld, htext, hempty, rfl⟩
    rw [← inBrackets_append] at htext
    obtain ⟨rfl, rfl⟩ := List.cons.inj htext
    rw [read_bracket, readPointer_held _ hheld, if_pos hempty]

/-! ## Places in a text -/

/-- Pieces can be read from the start of a text up to a place: `front` is what they are read
from, and `place` is the text from there on. -/
inductive Reaches : List Char → List Char → List Char → Prop where
  | start (text : List Char) : Reaches text [] text
  | behind {offset : Nat} {c : Char} {rest : List Char} {piece : Piece} {length : Nat}
      {front place : List Char} (read : Piece.read offset c rest = .ok (piece, length))
      (later : Reaches ((c :: rest).drop length) front place) :
      Reaches (c :: rest) ((c :: rest).take length ++ front) place

theorem eq_of_read {offset offset' : Nat} {c : Char} {rest : List Char} {piece piece' : Piece}
    {length length' : Nat} (h : read offset c rest = .ok (piece, length))
    (h' : read offset' c rest = .ok (piece', length')) : piece = piece' ∧ length = length' := by
  rw [read_start offset h'] at h
  cases h
  exact ⟨rfl, rfl⟩

theorem Reads.exists_reaches {text : List Char} {pieces : List Piece} (h : Reads text pieces)
    {piece : Piece} (hpiece : piece ∈ pieces) :
    ∃ front c rest offset length, Reaches text front (c :: rest) ∧
      read offset c rest = .ok (piece, length) := by
  induction h with
  | done => exact absurd hpiece List.not_mem_nil
  | @piece offset c rest first length pieces hread later ih =>
      rcases List.mem_cons.mp hpiece with rfl | hpiece
      · exact ⟨[], c, rest, offset, length, .start _, hread⟩
      · obtain ⟨front, c', rest', offset', length', hreaches, hread'⟩ := ih hpiece
        exact ⟨_, c', rest', offset', length', .behind hread hreaches, hread'⟩

theorem Reads.read_at {text : List Char} {pieces : List Piece} (h : Reads text pieces)
    {front : List Char} {c : Char} {rest : List Char} (hreaches : Reaches text front (c :: rest)) :
    ∃ offset piece length, read offset c rest = .ok (piece, length) ∧ piece ∈ pieces := by
  induction h generalizing front with
  | done => cases hreaches
  | @piece offset d more first length pieces hread later ih =>
      cases hreaches with
      | start => exact ⟨offset, first, length, hread, List.mem_cons_self⟩
      | behind hread' hlater =>
          obtain ⟨-, rfl⟩ := eq_of_read hread hread'
          obtain ⟨offset', piece, length', hpiece, hmem⟩ := ih hlater
          exact ⟨offset', piece, length', hpiece, List.mem_cons_of_mem _ hmem⟩

end Piece

namespace Code

open Piece (Held Nameless Reaches Reads together)

/-! ## Whole texts -/

theorem chunksFrom_eq_error_iff {steps offset : Nat} {text : List Char} {e : CodeError}
    (hsteps : text.length ≤ steps) :
    chunksFrom steps offset text = .error e ↔
      ∃ front c rest, Reaches text front (c :: rest) ∧
        Piece.read (offset + Text.utf8Size front) c rest = .error e := by
  induction steps generalizing offset text with
  | zero =>
      obtain rfl := List.length_eq_zero_iff.mp (Nat.le_zero.mp hsteps)
      refine iff_of_false nofun ?_
      rintro ⟨front, c, rest, hreaches, -⟩
      cases hreaches
  | succ steps ih =>
      cases text with
      | nil =>
          refine iff_of_false nofun ?_
          rintro ⟨front, c, rest, hreaches, -⟩
          cases hreaches
      | cons c rest =>
          simp only [chunksFrom]
          rcases hread : Piece.read offset c rest with e' | ⟨piece, length⟩
          · simp only [bind, Except.bind]
            constructor
            · rintro ⟨⟩
              exact ⟨[], c, rest, .start _, hread⟩
            · rintro ⟨front, d, more, hreaches, herror⟩
              cases hreaches with
              | start =>
                  have hat : Piece.read offset c rest = .error e := herror
                  exact congrArg Except.error (Except.error.inj (hread.symm.trans hat))
              | behind hread' _ =>
                  rw [Piece.read_start offset hread'] at hread
                  cases hread
          · obtain ⟨-, hpos, -⟩ := Piece.read_append offset Piece.breaks_nil hread
            have hleft : ((c :: rest).drop length).length ≤ steps := by
              rw [List.length_drop]
              omega
            refine map_eq_error_iff.trans ((ih hleft).trans ?_)
            constructor
            · rintro ⟨front, d, more, hreaches, herror⟩
              refine ⟨_, d, more, .behind hread hreaches, ?_⟩
              rw [Text.utf8Size_append, ← Nat.add_assoc]
              exact herror
            · rintro ⟨front, d, more, hreaches, herror⟩
              cases hreaches with
              | start =>
                  have hat : Piece.read offset c rest = .error e := herror
                  rw [hread] at hat
                  cases hat
              | @behind _ _ _ _ _ front' _ hread' hreaches =>
                  obtain ⟨-, rfl⟩ := Piece.eq_of_read hread hread'
                  refine ⟨front', d, more, hreaches, ?_⟩
                  rw [Text.utf8Size_append, ← Nat.add_assoc] at herror
                  exact herror

/-- A code string is refused for the first piece in it that cannot be read. -/
theorem compile_eq_error_iff {text : String} {e : CodeError} :
    compile text = .error e ↔
      ∃ front c rest, Reaches text.toList front (c :: rest) ∧
        Piece.read (Text.utf8Size front) c rest = .error e := by
  have hchunks : chunksFrom text.toList.length 0 text.toList = .error e ↔ _ :=
    chunksFrom_eq_error_iff (Nat.le_refl _)
  simp only [Nat.zero_add] at hchunks
  rw [← hchunks]
  exact map_eq_error_iff

theorem mem_together {pieces : List Piece} {chunk : Chunk} (hchunk : chunk.isBytes = false)
    (h : .chunk chunk ∈ pieces) : chunk ∈ together pieces [] := by
  induction pieces with
  | nil => exact absurd h List.not_mem_nil
  | cons piece rest ih =>
      have hcons : together (piece :: rest) [] = piece.putBefore (together rest []) := rfl
      rw [hcons]
      rcases List.mem_cons.mp h with rfl | h
      · exact List.mem_cons_self
      · have hlater := ih h
        unfold Piece.putBefore
        split
        · exact hlater
        · rename_i later chunks htogether
          rw [htogether] at hlater
          rcases List.mem_cons.mp hlater with rfl | hlater
          · cases hchunk
          · exact List.mem_cons_of_mem _ hlater
        · exact List.mem_cons_of_mem _ hlater
        · exact List.mem_cons_of_mem _ hlater

/-- Behind `front`, in front of which everything can be read, brackets hold `inner`. -/
def MeetsBrackets (text : String) (front : List Char) (relative : Bool) (inner : List Char) :
    Prop :=
  Held relative inner ∧ ∃ behind, Reaches text.toList front (inBrackets relative inner ++ behind)

section Compiled
variable {text : String} {code : Code} (h : compile text = .ok code)
include h

theorem exists_brackets {chunk : Chunk} (hchunk : chunk ∈ code.chunks) {name : String}
    (hname : chunk.name? = some name) :
    ∃ front relative inner, MeetsBrackets text front relative inner ∧
      Text.Trimmed name.toList ∧ (name = "" ↔ Nameless (Text.trim inner)) := by
  obtain ⟨pieces, hreads, hchunks⟩ := compile_eq_ok_iff.mp h
  have hpiece : .chunk chunk ∈ pieces := by
    refine (mem_of_mem_together (hchunks ▸ hchunk)).resolve_left fun hbytes => ?_
    cases chunk with
    | bytes bytes => cases hname
    | pointer | option | sized | literal => cases hbytes
  obtain ⟨front, c, rest, offset, length, hreaches, hread⟩ := hreads.exists_reaches hpiece
  obtain ⟨relative, inner, behind, hheld, htext, hsome, hstands⟩ :=
    Piece.inBrackets_of_read hread hname
  obtain ⟨found, hfound, htrimmed, hempty⟩ :=
    Piece.named_pointerChunk (Text.trimmed_trim inner) hsome hstands
  obtain rfl : found = name := Option.some.inj (hfound.symm.trans hname)
  exact ⟨front, relative, inner, ⟨hheld, behind, htext ▸ hreaches⟩, htrimmed, hempty⟩

theorem exists_chunk_of_nameless {front inner : List Char} {relative : Bool}
    (hmeets : MeetsBrackets text front relative inner) (hnameless : Nameless (Text.trim inner)) :
    ∃ chunk ∈ code.chunks, chunk.name? = some "" := by
  obtain ⟨pieces, hreads, hchunks⟩ := compile_eq_ok_iff.mp h
  obtain ⟨hheld, behind, hreaches⟩ := hmeets
  rw [← inBrackets_append] at hreaches
  obtain ⟨offset, piece, length, hread, hpiece⟩ := hreads.read_at hreaches
  have hsome : Text.trim inner ≠ [] := by
    intro hnil
    rw [hnil] at hnameless
    rcases hnameless with hmark | ⟨digits, hdigits, -⟩
    · cases hmark
    · cases hdigits
  rw [Piece.read_bracket, Piece.readPointer_held offset hheld, if_neg hsome] at hread
  rcases hstands : Piece.pointerChunk offset relative (Text.trim inner) with e | chunk
  · rw [hstands] at hread
    cases hread
  · rw [hstands] at hread
    cases hread
    obtain ⟨found, hfound, -, hempty⟩ :=
      Piece.named_pointerChunk (Text.trimmed_trim inner) hsome hstands
    obtain rfl := hempty.mpr hnameless
    have hbytes : chunk.isBytes = false := (Piece.compiled_of_reads hreads hpiece).1
    exact ⟨chunk, hchunks ▸ mem_together hbytes hpiece, hfound⟩

end Compiled

/-- No name in compiled code has blanks around it.  A name is empty exactly where brackets hold
the mark of options alone, or an offset alone; brackets that hold nothing at all are refused, at
their own offset. -/
theorem empty_name_iff (text : String) :
    (∀ code, compile text = .ok code →
      (∀ chunk ∈ code.chunks, ∀ name, chunk.name? = some name → Text.Trimmed name.toList) ∧
      ((∃ chunk ∈ code.chunks, chunk.name? = some "") ↔
        ∃ front relative inner, MeetsBrackets text front relative inner ∧
          Nameless (Text.trim inner))) ∧
    ∀ offset, compile text = .error (.emptyPointer offset) ↔
      ∃ front relative inner, MeetsBrackets text front relative inner ∧
        Text.trim inner = [] ∧ offset = Text.utf8Size front := by
  refine ⟨fun code h => ⟨?_, ?_, ?_⟩, fun offset => ⟨?_, ?_⟩⟩
  · intro chunk hchunk name hname
    obtain ⟨-, -, -, -, htrimmed, -⟩ := exists_brackets h hchunk hname
    exact htrimmed
  · rintro ⟨chunk, hchunk, hname⟩
    obtain ⟨front, relative, inner, hmeets, -, hempty⟩ := exists_brackets h hchunk hname
    exact ⟨front, relative, inner, hmeets, hempty.mp rfl⟩
  · rintro ⟨front, relative, inner, hmeets, hnameless⟩
    exact exists_chunk_of_nameless h hmeets hnameless
  · intro h
    obtain ⟨front, c, rest, hreaches, herror⟩ := compile_eq_error_iff.mp h
    obtain ⟨relative, inner, behind, hheld, htext, hempty, rfl⟩ :=
      Piece.read_eq_emptyPointer_iff.mp herror
    exact ⟨front, relative, inner, ⟨hheld, behind, htext ▸ hreaches⟩, hempty, rfl⟩
  · rintro ⟨front, relative, inner, ⟨hheld, behind, hreaches⟩, hempty, rfl⟩
    exact compile_eq_error_iff.mpr ⟨front, _, _, hreaches,
      Piece.read_eq_emptyPointer_iff.mpr ⟨relative, inner, behind, hheld, rfl, hempty, rfl⟩⟩

/-- A call, and behind it brackets with an offset alone, the mark of options alone, and a name
with a `+` of its own; then brackets with nothing in them, behind a name of three bytes. -/
theorem sample_names :
    (∃ code, compile "E8 [ +1F ] <option: > <f+2 +3>" = .ok code ∧
      code.chunks = [.bytes [0xE8], .pointer "" 0x1F true, .option "", .pointer "f+2" 3 false] ∧
      (∀ chunk ∈ code.chunks, ∀ name, chunk.name? = some name → Text.Trimmed name.toList) ∧
      ∃ front relative inner, MeetsBrackets "E8 [ +1F ] <option: > <f+2 +3>" front relative inner ∧
        Nameless (Text.trim inner)) ∧
    ∃ front relative inner, MeetsBrackets "[€] < \t>" front relative inner ∧
      Text.trim inner = [] ∧ 6 = Text.utf8Size front := by
  have hcode : compile "E8 [ +1F ] <option: > <f+2 +3>" =
      .ok ⟨[.bytes [0xE8], .pointer "" 0x1F true, .option "", .pointer "f+2" 3 false]⟩ := by
    decide +kernel
  obtain ⟨htrimmed, hempty⟩ := (empty_name_iff "E8 [ +1F ] <option: > <f+2 +3>").1 _ hcode
  refine ⟨⟨_, hcode, rfl, htrimmed, hempty.mp ⟨.option "", by simp, rfl⟩⟩, ?_⟩
  exact ((empty_name_iff "[€] < \t>").2 6).mp (by decide +kernel)

/-- An offset or a mark that nothing belongs to is compiled and written as zeros, where brackets
without anything in them are refused. -/
theorem empty_names_are_compiled :
    compile "[ ]" = .error (.emptyPointer 0) ∧
    ((compile "[+10]").map fun code => (code, (code.render caveScope 0x400000).1)) =
      .ok (⟨[.pointer "" 0x10 true]⟩, .ok [0, 0, 0, 0]) ∧
    ((compile "[option:]").map fun code => (code, (code.render caveScope 0x400000).1)) =
      .ok (⟨[.option ""]⟩, .ok [0, 0, 0, 0]) := by
  refine ⟨by decide +kernel, by cbv, by cbv⟩

end Code
end CodePatch
