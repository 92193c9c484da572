/-
# Code strings, piece by piece

A code string is a sequence of pieces (`Piece.Reads`), and it compiles to these
pieces put together (`Code.compile_eq_ok_iff`): offsets matter only for the
errors, and the count of steps not at all.

The lemma behind it is `Piece.read_append`.  Pointers, options and sized
expressions end at a bracket of their own and bytes after two digits, so
whatever follows cannot change what they are.  A number alone goes on as long
as it can, and ends where the text breaks: at its end, or at a blank.  Hence
texts with a break between them are read one after the other (`Reads.append`).
-/
import Mathlib
import CodePatch.Code.Compile

namespace CodePatch
namespace Piece

/-- A text that no piece before it reads into: it is empty, or starts with a blank. -/
def Breaks (behind : List Char) : Prop :=
  ∀ c ∈ behind.head?, isSpace c = true

theorem breaks_nil : Breaks [] := by
  intro c hc
  cases hc

theorem breaks_space (behind : List Char) : Breaks (' ' :: behind) := by
  intro c hc
  obtain rfl := Option.some.inj hc
  rfl

/-! ## One piece -/

section Parts
variable {start offset : Nat} (start' offset' : Nat) (behind : List Char)

theorem pointerText_append {close : Char} {text inner : List Char}
    (h : pointerText start close offset text = .ok inner) :
    pointerText start' close offset' (text ++ behind) = .ok inner ∧
      inner.length < text.length := by
  induction text generalizing offset offset' inner with
  | nil => cases h
  | cons c rest ih =>
      simp only [pointerText, List.cons_append] at h ⊢
      split at h
      · cases h
      · rename_i hopen
        rw [if_neg hopen]
        split at h
        · rename_i hclose
          rw [if_pos hclose]
          cases h
          exact ⟨rfl, Nat.succ_pos _⟩
        · rename_i hclose
          rw [if_neg hclose]
          rcases hrest : pointerText start close (offset + c.utf8Size) rest with e | found
          · rw [hrest] at h
            cases h
          · rw [hrest] at h
            cases h
            obtain ⟨hread, hlen⟩ := ih (offset' + c.utf8Size) hrest
            rw [hread]
            exact ⟨rfl, Nat.succ_lt_succ hlen⟩

/-- Where a pointer starts matters only for the errors in it. -/
theorem pointerChunk_start {relative : Bool} {name : List Char} {chunk : Chunk}
    (h : pointerChunk start relative name = .ok chunk) :
    pointerChunk start' relative name = .ok chunk := by
  revert h
  unfold pointerChunk
  cases Text.after? ['o', 'p', 't', 'i', 'o', 'n', ':'] name with
  | some option => exact id
  | none =>
      cases Text.splitLast? '+' name with
      | none => exact id
      | some parts =>
          simp only [pointerOffset]
          cases Text.readHexAddress (Text.trim parts.2) with
          | ok offset => exact id
          | error e => exact fun h => nomatch h

theorem readPointer_append {relative : Bool} {text : List Char} {piece : Piece} {length : Nat}
    (h : readPointer start relative text = .ok (piece, length)) :
    readPointer start' relative (text ++ behind) = .ok (piece, length) ∧
      0 < length ∧ length ≤ text.length + 1 := by
  simp only [readPointer] at h ⊢
  rcases htext : pointerText start (if relative = true then ']' else '>') (start + 1) text with
    e | inner
  · rw [htext] at h
    cases h
  · obtain ⟨hread, hlen⟩ :=
      pointerText_append start' (start' + 1) behind htext
    rw [htext] at h
    rw [hread]
    simp only [bind, Except.bind] at h ⊢
    split at h
    · cases h
    · rename_i hname
      rw [if_neg hname]
      rcases hchunk : pointerChunk start relative (Text.trim inner) with e | chunk
      · rw [hchunk] at h
        cases h
      · rw [hchunk] at h
        rw [pointerChunk_start start' hchunk]
        cases h
        exact ⟨rfl, by omega, by omega⟩

theorem sizedText?_append {depth : Nat} {text inner : List Char}
    (h : sizedText? depth text = some inner) :
    sizedText? depth (text ++ behind) = some inner ∧ inner.length < text.length := by
  induction text generalizing depth inner with
  | nil => cases h
  | cons c rest ih =>
      have hlater : ∀ depth', (sizedText? depth' rest).map (c :: ·) = some inner →
          (sizedText? depth' (rest ++ behind)).map (c :: ·) = some inner ∧
            inner.length < rest.length + 1 := by
        intro depth' hrest
        obtain ⟨found, hfound, rfl⟩ := Option.map_eq_some_iff.mp hrest
        obtain ⟨hread, hlen⟩ := ih hfound
        rw [hread]
        exact ⟨rfl, Nat.succ_lt_succ hlen⟩
      simp only [sizedText?, List.cons_append] at h ⊢
      split
      · rename_i hopen
        rw [if_pos hopen] at h
        exact hlater _ h
      · rename_i hopen
        rw [if_neg hopen] at h
        split
        · rename_i hclose
          rw [if_pos hclose] at h
          cases depth with
          | zero =>
              cases h
              exact ⟨rfl, Nat.succ_pos _⟩
          | succ depth => exact hlater _ h
        · rename_i hclose
          rw [if_neg hclose] at h
          exact hlater _ h

theorem readSized_append {text : List Char} {piece : Piece} {length : Nat}
    (h : readSized start text = .ok (piece, length)) :
    readSized start' (text ++ behind) = .ok (piece, length) ∧
      0 < length ∧ length ≤ text.length + 1 := by
  simp only [readSized] at h ⊢
  rcases htext : sizedText? 0 text with _ | inner
  · rw [htext] at h
    cases h
  · obtain ⟨hread, hlen⟩ := sizedText?_append behind htext
    rw [htext] at h
    rw [hread]
    revert h
    dsimp only
    cases Text.splitFirst? ':' inner with
    | none =>
        intro h
        cases h
    | some parts =>
        obtain ⟨width, expression⟩ := parts
        dsimp only
        cases ValueWidth.ofName? (Text.trim width) with
        | none =>
            intro h
            cases h
        | some w =>
            intro h
            cases h
            exact ⟨rfl, by omega, by omega⟩

end Parts

theorem startsNumber_iff {c : Char} {rest : List Char} :
    startsNumber (c :: rest) = true ↔
      c = '+' ∨ c = '-' ∨ c = '.' ∨ c = '0' ∧ (rest.head? = some 'x' ∨ rest.head? = some 'X') := by
  unfold startsNumber Text.afterHexMark?
  constructor
  · intro h
    split at h
    · simp_all
    · simp_all
    · simp_all
    · split at h
      · simp_all
      · simp_all
      · cases h
  · rintro (rfl | rfl | rfl | ⟨rfl, h | h⟩)
    · rfl
    · rfl
    · rfl
    · obtain ⟨more, rfl⟩ := List.head?_eq_some_iff.mp h
      rfl
    · obtain ⟨more, rfl⟩ := List.head?_eq_some_iff.mp h
      rfl

theorem endsNumber_of_startsNumber {c : Char} {rest : List Char}
    (h : startsNumber (c :: rest) = true) : endsNumber c = false := by
  rcases startsNumber_iff.mp h with rfl | rfl | rfl | ⟨rfl, -⟩ <;> rfl

section Numbers
variable {behind : List Char} (hbreaks : Breaks behind)
include hbreaks

theorem takeWhile_number_append (text : List Char) :
    (text ++ behind).takeWhile (!endsNumber ·) = text.takeWhile (!endsNumber ·) := by
  induction text with
  | nil =>
      cases behind with
      | nil => rfl
      | cons c rest =>
          have hspace : isSpace c = true := hbreaks c rfl
          have hends : endsNumber c = true := by simp only [endsNumber, hspace, Bool.true_or]
          rw [List.nil_append, List.takeWhile_cons, hends]
          rfl
  | cons c rest ih => rw [List.cons_append, List.takeWhile_cons, List.takeWhile_cons, ih]

theorem startsNumber_append (c : Char) (rest : List Char) :
    startsNumber (c :: (rest ++ behind)) = startsNumber (c :: rest) := by
  rw [Bool.eq_iff_iff, startsNumber_iff, startsNumber_iff]
  cases rest with
  | cons d rest => exact Iff.rfl
  | nil =>
      have hmark : ∀ d, isSpace d = false → behind.head? ≠ some d := by
        intro d hd hhead
        rw [hbreaks d hhead] at hd
        cases hd
      have hx := hmark 'x' rfl
      have hX := hmark 'X' rfl
      simp only [List.nil_append, hx, hX, List.head?_nil, reduceCtorEq, or_self, and_false]

theorem readNumber_append {start : Nat} (start' : Nat) {c : Char} {rest : List Char} {piece : Piece}
    {length : Nat} (hstarts : startsNumber (c :: rest) = true)
    (h : readNumber start (c :: rest) = .ok (piece, length)) :
    readNumber start' (c :: (rest ++ behind)) = .ok (piece, length) ∧ 0 < length ∧
      length ≤ (c :: rest).length := by
  simp only [readNumber] at h ⊢
  rw [← List.cons_append, takeWhile_number_append hbreaks]
  revert h
  cases number? ((c :: rest).takeWhile (!endsNumber ·)) with
  | none =>
      intro h
      cases h
  | some value =>
      intro h
      cases h
      refine ⟨rfl, ?_, (List.takeWhile_prefix _).length_le⟩
      rw [List.takeWhile_cons, endsNumber_of_startsNumber hstarts]
      exact Nat.succ_pos _

end Numbers

theorem byte?_append {text : List Char} {value : UInt8} (behind : List Char)
    (h : byte? text = some value) :
    byte? (text ++ behind) = some value ∧ 2 ≤ text.length := by
  match text, h with
  | high :: low :: rest, h => exact ⟨h, Nat.le_add_left ..⟩

/-- What is read of a text is read of every text that goes on with a break. -/
theorem read_append {offset : Nat} (offset' : Nat) {c : Char} {rest behind : List Char}
    {piece : Piece} {length : Nat} (hbreaks : Breaks behind)
    (h : read offset c rest = .ok (piece, length)) :
    read offset' c (rest ++ behind) = .ok (piece, length) ∧ 0 < length ∧
      length ≤ (c :: rest).length := by
  unfold read at h ⊢
  rw [startsNumber_append hbreaks]
  by_cases hspace : isSpace c = true
  · rw [if_pos hspace] at h ⊢
    cases h
    exact ⟨rfl, Nat.one_pos, Nat.succ_le_succ (Nat.zero_le _)⟩
  rw [if_neg hspace] at h ⊢
  by_cases hrelative : c = '['
  · rw [if_pos hrelative] at h ⊢
    exact readPointer_append offset' behind h
  rw [if_neg hrelative] at h ⊢
  by_cases habsolute : c = '<'
  · rw [if_pos habsolute] at h ⊢
    exact readPointer_append offset' behind h
  rw [if_neg habsolute] at h ⊢
  by_cases hsized : c = '('
  · rw [if_pos hsized] at h ⊢
    exact readSized_append offset' behind h
  rw [if_neg hsized] at h ⊢
  by_cases hnumber : startsNumber (c :: rest) = true
  · rw [if_pos hnumber] at h ⊢
    exact readNumber_append hbreaks offset' hnumber h
  rw [if_neg hnumber] at h ⊢
  cases hbyte : byte? (c :: rest) with
  | none =>
      rw [hbyte] at h
      cases h
  | some value =>
      rw [hbyte] at h
      cases h
      obtain ⟨hread, hlen⟩ := byte?_append behind hbyte
      rw [List.cons_append] at hread
      rw [hread]
      exact ⟨rfl, Nat.two_pos, hlen⟩

theorem read_start {offset : Nat} (offset' : Nat) {c : Char} {rest : List Char} {piece : Piece}
    {length : Nat} (h : read offset c rest = .ok (piece, length)) :
    read offset' c rest = .ok (piece, length) := by
  have hread := (read_append offset' breaks_nil h).1
  rwa [List.append_nil] at hread

/-- The chunks that pieces give, in front of those that follow. -/
def together (pieces : List Piece) (later : List Chunk) : List Chunk :=
  pieces.foldr putBefore later

/-- The text consists of the pieces, one behind the other. -/
inductive Reads : List Char → List Piece → Prop where
  | done : Reads [] []
  | piece {offset : Nat} {c : Char} {rest : List Char} {piece : Piece} {length : Nat}
      {pieces : List Piece} (read : Piece.read offset c rest = .ok (piece, length))
      (later : Reads ((c :: rest).drop length) pieces) : Reads (c :: rest) (piece :: pieces)

theorem Reads.append {text behind : List Char} {pieces more : List Piece}
    (h : Reads text pieces) (hbreaks : Breaks behind) (hbehind : Reads behind more) :
    Reads (text ++ behind) (pieces ++ more) := by
  induction h with
  | done => exact hbehind
  | @piece offset c rest piece length pieces hread later ih =>
      obtain ⟨hmore, -, hlen⟩ := read_append offset hbreaks hread
      have hdrop : (c :: (rest ++ behind)).drop length = (c :: rest).drop length ++ behind :=
        List.drop_append_of_le_length hlen
      exact .piece hmore (hdrop ▸ ih)

theorem Reads.blank {text : List Char} {pieces : List Piece} (h : Reads text pieces) :
    Reads (' ' :: text) (.blank :: pieces) := by
  have hblank : Piece.read 0 ' ' text = .ok (.blank, 1) := rfl
  exact .piece hblank h

end Piece

namespace Code

open Piece (together Reads)

theorem chunksFrom_of_reads {text : List Char} {pieces : List Piece} (h : Reads text pieces)
    {steps : Nat} (hsteps : text.length ≤ steps) (offset : Nat) :
    chunksFrom steps offset text = .ok (together pieces []) := by
  induction h generalizing steps offset with
  | done => cases steps <;> rfl
  | @piece at_ c rest piece length pieces hread later ih =>
      obtain ⟨-, hpos, -⟩ := Piece.read_append offset Piece.breaks_nil hread
      cases steps with
      | zero => cases hsteps
      | succ steps =>
          have hleft : ((c :: rest).drop length).length ≤ steps := by
            rw [List.length_drop]
            omega
          simp only [chunksFrom, Piece.read_start offset hread, bind, Except.bind, ih hleft]
          rfl

theorem reads_of_chunksFrom {steps offset : Nat} {text : List Char} {chunks : List Chunk}
    (hsteps : text.length ≤ steps) (h : chunksFrom steps offset text = .ok chunks) :
    ∃ pieces, Reads text pieces ∧ chunks = together pieces [] := by
  induction steps generalizing offset text chunks with
  | zero =>
      obtain rfl := List.length_eq_zero_iff.mp (Nat.le_zero.mp hsteps)
      cases h
      exact ⟨[], .done, rfl⟩
  | succ steps ih =>
      cases text with
      | nil =>
          cases h
          exact ⟨[], .done, rfl⟩
      | cons c rest =>
          simp only [chunksFrom] at h
          rcases hread : Piece.read offset c rest with e | ⟨piece, length⟩
          · rw [hread] at h
            cases h
          · obtain ⟨-, hpos, -⟩ := Piece.read_append offset Piece.breaks_nil hread
            have hleft : ((c :: rest).drop length).length ≤ steps := by
              rw [List.length_drop]
              omega
            simp only [hread, bind, Except.bind] at h
            rcases hlater : chunksFrom steps
              (offset + Text.utf8Size ((c :: rest).take length)) ((c :: rest).drop length) with
              e | later
            · rw [hlater] at h
              cases h
            · rw [hlater] at h
              cases h
              obtain ⟨pieces, hpieces, rfl⟩ := ih hleft hlater
              exact ⟨piece :: pieces, .piece hread hpieces, rfl⟩

/-- Code strings compile to the pieces that they are read as, put together. -/
theorem compile_eq_ok_iff {text : String} {code : Code} :
    compile text = .ok code ↔
      ∃ pieces, Reads text.toList pieces ∧ code.chunks = together pieces [] := by
  constructor
  · intro h
    simp only [compile] at h
    rcases hchunks : chunksFrom text.toList.length 0 text.toList with e | chunks
    · rw [hchunks] at h
      cases h
    · rw [hchunks] at h
      cases h
      exact reads_of_chunksFrom (Nat.le_refl _) hchunks
  · rintro ⟨pieces, hreads, hchunks⟩
    obtain ⟨chunks⟩ := code
    subst hchunks
    simp only [compile, chunksFrom_of_reads hreads (Nat.le_refl _)]
    rfl

end Code
end CodePatch
