/-
# Who writes addresses

An address gets into memory in several ways: as a pointer of a code string, as
an expression of four bytes in one, in the redirect of a breakpoint, and as the
distance that the command line shows for a branch.  Each of these computes it on
its own, and looks names up on its own.  `producers_of_addresses_agree` says
that they come to the same word: a relative one counts from the byte behind
itself, wherever in the code it stands.

What brackets make of a name is in `evaluate_embedded`; what is left here is
that a code string with such a name compiles to the chunk it looks like.
-/
import CodePatch.Proofs.Code.Compose
import CodePatch.Proofs.Expression.Embedded
import CodePatch.CommandLine.Run

namespace CodePatch

/-- A name in the brackets of an address, as code strings and expressions spell it. -/
def bracketed (relative : Bool) (name : String) : String :=
  if relative then "[" ++ name ++ "]" else "<" ++ name ++ ">"

theorem toList_bracketed (relative : Bool) (name : String) :
    (bracketed relative name).toList = inBrackets relative name.toList := by
  cases relative <;> simp [bracketed, inBrackets, brackets]

/-! ## The chunks that names compile to -/

namespace Piece

theorem pointerText_plain {start offset : Nat} {close : Char} {text : List Char}
    (hopen : ∀ c ∈ text, ¬ (c = '[' ∨ c = '<')) (hclose : ∀ c ∈ text, c ≠ close)
    (hdiffers : ¬ (close = '[' ∨ close = '<')) (rest : List Char) :
    pointerText start close offset (text ++ close :: rest) = .ok text := by
  induction text generalizing offset with
  | nil => rw [List.nil_append, pointerText, if_neg hdiffers, if_pos rfl]
  | cons c more ih =>
      rw [List.cons_append, pointerText, if_neg (hopen c List.mem_cons_self),
        if_neg (hclose c List.mem_cons_self),
        ih (fun d hd => hopen d (List.mem_cons_of_mem _ hd))
          (fun d hd => hclose d (List.mem_cons_of_mem _ hd))]
      rfl

theorem sizedText?_plain {depth : Nat} {text : List Char} (h : ∀ c ∈ text, c ≠ '(' ∧ c ≠ ')')
    (rest : List Char) :
    sizedText? depth (text ++ rest) = (sizedText? depth rest).map (text ++ ·) := by
  induction text with
  | nil => exact Option.map_id'.symm
  | cons c more ih =>
      obtain ⟨hopen, hclose⟩ := h c List.mem_cons_self
      rw [List.cons_append, sizedText?.eq_def]
      simp only [if_neg hopen, if_neg hclose]
      rw [ih fun d hd => h d (List.mem_cons_of_mem _ hd), Option.map_map]
      rfl

theorem readSized_eq (start : Nat) {text inner width expression : List Char} {w : ValueWidth}
    (hinner : sizedText? 0 text = some inner)
    (hsplit : Text.splitFirst? ':' inner = some (width, expression))
    (hwidth : ValueWidth.ofName? (Text.trim width) = some w) :
    readSized start text =
      .ok (.chunk (.sized w (String.ofList (Text.trim expression))), inner.length + 2) := by
  simp only [readSized, hinner, hsplit, hwidth]

theorem Reads.single {offset : Nat} {c : Char} {rest : List Char} {piece : Piece}
    (h : read offset c rest = .ok (piece, (c :: rest).length)) : Reads (c :: rest) [piece] := by
  have hend : (c :: rest).drop (c :: rest).length = [] := List.drop_length
  exact .piece h (hend ▸ .done)

/-- What brackets can hold: a text in which no bracket opens, and theirs does not close. -/
def Held (relative : Bool) (inner : List Char) : Prop :=
  ∀ c ∈ inner, c ≠ '[' ∧ c ≠ '<' ∧ c ≠ (brackets relative).2

theorem read_bracket (start : Nat) (relative : Bool) (text : List Char) :
    read start (brackets relative).1 text = readPointer start relative text := by
  cases relative <;> rfl

theorem readPointer_held (start : Nat) {relative : Bool} {inner : List Char}
    (h : Held relative inner) (behind : List Char) :
    readPointer start relative (inner ++ (brackets relative).2 :: behind) =
      if Text.trim inner = [] then .error (.emptyPointer start)
      else (pointerChunk start relative (Text.trim inner)).map
        fun chunk => (.chunk chunk, inner.length + 2) := by
  have hclose : (if relative = true then ']' else '>') = (brackets relative).2 := by
    cases relative <;> rfl
  have hdiffers : ¬ ((brackets relative).2 = '[' ∨ (brackets relative).2 = '<') := by
    cases relative <;> decide
  have htext : pointerText start (brackets relative).2 (start + 1)
      (inner ++ (brackets relative).2 :: behind) = .ok inner :=
    pointerText_plain (fun c hc => not_or.mpr ⟨(h c hc).1, (h c hc).2.1⟩)
      (fun c hc => (h c hc).2.2) hdiffers behind
  simp only [readPointer, hclose, htext, bind, Except.bind, List.isEmpty_iff]
  split
  · rfl
  · cases pointerChunk start relative (Text.trim inner) <;> rfl

theorem reads_inBrackets {relative : Bool} {inner : List Char} {chunk : Chunk}
    (hplain : Held relative inner) (htrim : Text.trim inner = inner) (hnonempty : inner ≠ [])
    (hchunk : pointerChunk 0 relative inner = .ok chunk) :
    Reads (inBrackets relative inner) [.chunk chunk] := by
  have hread := readPointer_held 0 hplain []
  have hlength : ((brackets relative).1 :: (inner ++ [(brackets relative).2])).length =
      inner.length + 2 := by
    rw [List.length_cons, List.length_append, List.length_singleton]
  rw [htrim, if_neg hnonempty, hchunk, Except.map, ← hlength, ← read_bracket] at hread
  exact .single hread

theorem reads_inParentheses {inner width expression : List Char} {w : ValueWidth}
    (hinner : sizedText? 0 (inner ++ [')']) = some inner)
    (hsplit : Text.splitFirst? ':' inner = some (width, expression))
    (hwidth : ValueWidth.ofName? (Text.trim width) = some w) :
    Reads ('(' :: (inner ++ [')']))
      [.chunk (.sized w (String.ofList (Text.trim expression)))] := by
  have hread : read 0 '(' (inner ++ [')']) =
      .ok (.chunk (.sized w (String.ofList (Text.trim expression))), inner.length + 2) :=
    readSized_eq 0 hinner hsplit hwidth
  have hlength : ('(' :: (inner ++ [')'])).length = inner.length + 2 := by
    rw [List.length_cons, List.length_append, List.length_singleton]
  rw [← hlength] at hread
  exact .single hread

section Names
variable {name : String} (hname : Embeddable name.toList) (relative : Bool)
include hname

theorem pointerChunk_name (start : Nat) :
    pointerChunk start relative name.toList = .ok (.pointer name 0 relative) := by
  have hoption : Text.after? ['o', 'p', 't', 'i', 'o', 'n', ':'] name.toList = none := hname.address
  have hplus : Text.splitLast? '+' name.toList = none :=
    Text.splitLast?_eq_none_iff.mpr fun hplus => hname.ne (by decide) _ hplus rfl
  simp only [pointerChunk, hoption, hplus, String.ofList_toList]

/-- There are no parentheses in a name, nor in the brackets around it. -/
theorem inBrackets_plain : ∀ c ∈ inBrackets relative name.toList, c ≠ '(' ∧ c ≠ ')' := by
  have hends : ∀ c, c = (brackets relative).1 ∨ c = (brackets relative).2 →
      c ≠ '(' ∧ c ≠ ')' := by
    rintro c (rfl | rfl) <;> cases relative <;> decide
  intro c hc
  rcases List.mem_cons.mp hc with hc | hc
  · exact hends c (Or.inl hc)
  · rcases List.mem_append.mp hc with hc | hc
    · exact ⟨hname.ne (by decide) c hc, hname.ne (by decide) c hc⟩
    · exact hends c (Or.inr (List.mem_singleton.mp hc))

theorem reads_name :
    Reads (inBrackets relative name.toList) [.chunk (.pointer name 0 relative)] := by
  have hclose := (brackets_mem_marks relative).2.1
  refine reads_inBrackets (fun c hc => ⟨?_, ?_, hname.ne hclose c hc⟩) hname.trimmed hname.nonempty
    (pointerChunk_name hname relative 0)
  · exact hname.ne (by decide) c hc
  · exact hname.ne (by decide) c hc

theorem reads_sized : Reads ("(u32:" ++ bracketed relative name ++ ")").toList
    [.chunk (.sized .u32 (bracketed relative name))] := by
  have hword : ∀ c ∈ ['u', '3', '2', ':'], c ≠ '(' ∧ c ≠ ')' := by
    simp
  have hplain : ∀ c ∈ ['u', '3', '2', ':'] ++ inBrackets relative name.toList,
      c ≠ '(' ∧ c ≠ ')' := by
    intro c hc
    rcases List.mem_append.mp hc with hc | hc
    · exact hword c hc
    · exact inBrackets_plain hname relative c hc
  have hinner : sizedText? 0 (['u', '3', '2', ':'] ++ inBrackets relative name.toList ++ [')']) =
      some (['u', '3', '2', ':'] ++ inBrackets relative name.toList) := by
    have hclose : sizedText? 0 [')'] = some [] := rfl
    rw [sizedText?_plain hplain, hclose, Option.map_some, List.append_nil]
  have hsplit : Text.splitFirst? ':' (['u', '3', '2', ':'] ++ inBrackets relative name.toList) =
      some (['u', '3', '2'], inBrackets relative name.toList) :=
    Text.splitFirst?_append ['u', '3', '2'] _ (by decide)
  have hreads := reads_inParentheses hinner hsplit (by decide : _ = some ValueWidth.u32)
  rw [trim_inBrackets, ← toList_bracketed, String.ofList_toList, toList_bracketed] at hreads
  have htext : ("(u32:" ++ bracketed relative name ++ ")").toList =
      '(' :: (['u', '3', '2', ':'] ++ inBrackets relative name.toList ++ [')']) := by
    rw [String.toList_append, String.toList_append, toList_bracketed]
    rfl
  rwa [htext]

end Names
end Piece

namespace Chunk

variable {scope : Scope} {name : String} {address : UInt32}

/-- A pointer is the word that its brackets make of the address it resolves to. -/
theorem render_pointer (hresolve : scope.symbols.resolve? scope.memory name = some address)
    (here offset : UInt32) (relative : Bool) :
    (Chunk.pointer name offset relative).render scope here =
      (.ok (wordBytes (pointerWord address offset here relative)), []) := by
  simp only [render, hresolve]

/-- So is an expression of a word that holds just the name. -/
theorem render_sized_name (hname : Embeddable name.toList)
    (hresolve : scope.symbols.resolve? scope.memory name = some address) {relative : Bool}
    (hregisters : relative = true → scope.registers = none) (here : UInt32) :
    (Chunk.sized .u32 (bracketed relative name)).render scope here =
      (.ok (wordBytes (pointerWord address 0 here relative)), []) := by
  obtain ⟨cursor, hvalue⟩ : ∃ cursor, Expression.evaluate (scope.withOrigin here)
      (inBrackets relative name.toList) none =
        .ok ⟨Expression.embed (scope.withOrigin here) relative address, cursor⟩ :=
    Expression.evaluate_embedded hname hresolve hregisters
  have hword : Expression.embed (scope.withOrigin here) relative address =
      pointerWord address 0 here relative := by
    cases relative with
    | true =>
        have hzero : address - (here + 4) = address + 0 - (here + 4) := by
          rw [UInt32.add_zero]
        exact hzero
    | false => exact (UInt32.add_zero address).symm
  simp only [render, toList_bracketed, hvalue, hword]
  rfl

end Chunk

namespace Code

open Piece (together Reads)

variable {scope : Scope} {name : String} {address : UInt32}

section Names
variable (hname : Embeddable name.toList) (relative : Bool)
include hname

theorem compile_name : compile (bracketed relative name) = .ok ⟨[.pointer name 0 relative]⟩ := by
  have hreads := Piece.reads_name hname relative
  rw [← toList_bracketed] at hreads
  exact compile_eq_ok_iff.mpr ⟨_, hreads, rfl⟩

theorem compile_sized : compile ("(u32:" ++ bracketed relative name ++ ")") =
    .ok ⟨[.sized .u32 (bracketed relative name)]⟩ :=
  compile_eq_ok_iff.mpr ⟨_, Piece.reads_sized hname relative, rfl⟩

theorem compile_call : compile ("E8 " ++ bracketed true name) =
    .ok ⟨[.bytes [0xE8], .pointer name 0 true]⟩ := by
  have hdigits : Piece.read 0 'E' ['8'] = .ok (.byte 0xE8, 2) := rfl
  have hopcode : Reads ['E', '8'] [.byte 0xE8] := .single hdigits
  have hreads := hopcode.append (Piece.breaks_space _) (Piece.reads_name hname true).blank
  have htext : ("E8 " ++ bracketed true name).toList =
      ['E', '8'] ++ ' ' :: inBrackets true name.toList := by
    rw [String.toList_append, toList_bracketed]
    rfl
  rw [← htext] at hreads
  exact compile_eq_ok_iff.mpr ⟨_, hreads, rfl⟩

end Names

/-- What counts from the end of a word at a place behind `target` is the total again
once that place is added. -/
theorem sub_add_place (total target place : UInt32) :
    total - (target + place + 4) + target + place + 4 = total := by
  calc total - (target + place + 4) + target + place + 4
      = total - (target + place + 4) + (target + place + 4) := by
        simp only [UInt32.add_assoc]
    _ = total := UInt32.sub_add_cancel ..

theorem render_call (hresolve : scope.symbols.resolve? scope.memory name = some address)
    (source : UInt32) : render ⟨[.bytes [0xE8], .pointer name 0 true]⟩ scope source =
      (.ok (MachineCode.branch MachineCode.callOpcode source address), []) := by
  have hword : Chunk.pointerWord address 0 (source + UInt32.ofNat [(0xE8 : UInt8)].length) true =
      address - (source + UInt32.ofNat callLength) := by
    have hzero : address + 0 = address := UInt32.add_zero address
    have hplace : source + UInt32.ofNat 1 + 4 = source + UInt32.ofNat 5 := UInt32.add_assoc ..
    simp only [Chunk.pointerWord, if_true, List.length_singleton, callLength, hzero, hplace]
  rw [render_eq_ok_iff, renderChunks_cons_iff, Chunk.render, inTurn_ok_iff]
  refine ⟨wordBytes (address - (source + UInt32.ofNat callLength)), [], ?_, rfl, rfl⟩
  rw [renderChunks_cons_iff, Chunk.render_pointer hresolve, hword, inTurn_ok_iff]
  exact ⟨[], [], rfl, (List.append_nil _).symm, rfl⟩

theorem distance_of_branch (opcode : UInt8) (source address : UInt32) (more : List UInt8) :
    ((MachineCode.branch opcode source address ++ more).drop 1).take 4 =
      wordBytes (Command.branchDistance source address) :=
  List.take_left' (length_littleEndian 4 _)

/-- A pointer in rendered code is a word behind the code that is before it. -/
theorem pointer_of_render {code : Code} {target : UInt32} {bytes : List UInt8} {said : Journal}
    {offset : UInt32} {relative : Bool} {front back : List Chunk}
    (hrender : code.render scope target = (.ok bytes, said))
    (hchunks : code.chunks = front ++ .pointer name offset relative :: back)
    (hresolve : scope.symbols.resolve? scope.memory name = some address) :
    ∃ before after, bytes = before ++ wordBytes (Chunk.pointerWord address offset
        (target + UInt32.ofNat before.length) relative) ++ after ∧
      before.length = size scope.options ⟨front⟩ := by
  rw [render_eq_ok_iff, hchunks, renderChunks_append_iff] at hrender
  obtain ⟨before, later, saidBefore, saidLater, hbefore, hlater, rfl, -⟩ := hrender
  rw [renderChunks_cons_iff, Chunk.render_pointer hresolve, inTurn_ok_iff] at hlater
  obtain ⟨after, -, -, rfl, -⟩ := hlater
  have hfront : render ⟨front⟩ scope target = (.ok before, saidBefore) :=
    render_eq_ok_iff.mpr hbefore
  exact ⟨before, after, (List.append_assoc ..).symm, length_of_render hfront⟩

theorem producers_of_addresses_agree (scope : Scope) :
    (∀ (code : Code) target bytes said front name offset relative back address,
      code.render scope target = (.ok bytes, said) →
      code.chunks = front ++ .pointer name offset relative :: back →
      scope.symbols.resolve? scope.memory name = some address →
      ∃ before w after, bytes = before ++ wordBytes w ++ after ∧
        before.length = size scope.options ⟨front⟩ ∧
        if relative then w + target + UInt32.ofNat before.length + 4 = address + offset
        else w = address + offset) ∧
    ∀ name address, Embeddable name.toList →
      scope.symbols.resolve? scope.memory name = some address →
      (∀ relative, scope.registers = none → ∃ pointer sized,
        compile (bracketed relative name) = .ok ⟨[pointer]⟩ ∧
        compile ("(u32:" ++ bracketed relative name ++ ")") = .ok ⟨[sized]⟩ ∧
        ∀ here, ∃ w, pointer.render scope here = (.ok (wordBytes w), []) ∧
          sized.render scope here = (.ok (wordBytes w), [])) ∧
      ∀ source n, ∃ code bytes, compile ("E8 " ++ bracketed true name) = .ok code ∧
        code.render scope source = (.ok bytes, []) ∧
        (bytes.drop 1).take 4 = ((MachineCode.redirect source address n).drop 1).take 4 ∧
        (bytes.drop 1).take 4 = wordBytes (Command.branchDistance source address) := by
  refine ⟨?_, ?_⟩
  · intro code target bytes said front name offset relative back address hrender hchunks hresolve
    obtain ⟨before, after, hbytes, hlength⟩ := pointer_of_render hrender hchunks hresolve
    refine ⟨before, _, after, hbytes, hlength, ?_⟩
    cases relative with
    | true => exact sub_add_place ..
    | false => rfl
  · intro name address hname hresolve
    refine ⟨?_, ?_⟩
    · intro relative hregisters
      refine ⟨_, _, compile_name hname relative, compile_sized hname relative, ?_⟩
      intro here
      exact ⟨_, Chunk.render_pointer hresolve here 0 relative,
        Chunk.render_sized_name hname hresolve (fun _ => hregisters) here⟩
    · intro source n
      have hdistance := distance_of_branch MachineCode.callOpcode source address
      have hcall := hdistance []
      rw [List.append_nil] at hcall
      exact ⟨_, _, compile_call hname, render_call hresolve source,
        hcall.trans (hdistance _).symm, hcall⟩

/-- A scope with a function and a code cave. -/
def caveScope : Scope where
  symbols := ⟨[("f", 0x401000), ("cave:x", 0x500010)]⟩
  options := {}

/-- A pointer behind two bytes, and a code cave under its other name. -/
theorem sample_addresses_agree :
    (∃ before w after, [0x90, 0xE8, 0xFE, 0x0F, 0x00, 0x00] = before ++ wordBytes w ++ after ∧
      before.length = 2 ∧ w + 0x400000 + UInt32.ofNat before.length + 4 = 0x401000 + 4) ∧
    (∃ pointer sized, compile "[codecave:x]" = .ok ⟨[pointer]⟩ ∧
      compile "(u32:[codecave:x])" = .ok ⟨[sized]⟩ ∧
      ∀ here, ∃ w, pointer.render caveScope here = (.ok (wordBytes w), []) ∧
        sized.render caveScope here = (.ok (wordBytes w), [])) ∧
    ∃ code bytes, compile "E8 [codecave:x]" = .ok code ∧
      code.render caveScope 0x400000 = (.ok bytes, []) ∧
      (bytes.drop 1).take 4 =
        ((MachineCode.redirect 0x400000 0x500010 8).drop 1).take 4 ∧
      (bytes.drop 1).take 4 = wordBytes (Command.branchDistance 0x400000 0x500010) := by
  obtain ⟨hpointers, hnames⟩ := producers_of_addresses_agree caveScope
  have hname : Embeddable "codecave:x".toList :=
    ⟨by decide, by decide, by simp [marks], by decide⟩
  have hresolve : caveScope.symbols.resolve? caveScope.memory "codecave:x" = some 0x500010 := rfl
  obtain ⟨hbrackets, hcalls⟩ := hnames "codecave:x" 0x500010 hname hresolve
  refine ⟨?_, hbrackets true rfl, hcalls 0x400000 8⟩
  exact hpointers ⟨[.bytes [0x90, 0xE8], .pointer "f" 4 true]⟩ 0x400000 _ []
    [.bytes [0x90, 0xE8]] "f" 4 true [] 0x401000 (by cbv) rfl rfl

end Code
end CodePatch
