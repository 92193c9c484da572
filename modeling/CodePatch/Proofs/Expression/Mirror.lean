/-
# The buffer around a place

A place in the buffer mirrors a cursor if the text of the cursor stands in the
buffer between the place's position and its limit, with more text before and
behind it (`Mirrors`).  Every access that is made from such a place is in range
and between characters, and finds what the cursor has: the text up to the limit,
the next character if it is ASCII, the tokens, and the bracket that closes.

Tokens are ASCII, so they are found in the bytes where they are found in the
text, and a reader of bytes that meets a character beyond ASCII can tell that it
is none of those it looks for.
-/
import CodePatch.Proofs.Expression.Buffer
import CodePatch.Proofs.Expression.Passage

namespace CodePatch

open Text (IsAscii encoded blurred asByte utf8Size)

/-! ## Tokens in bytes -/

theorem isAscii_of_isTokenChar {c : Char} (h : isTokenChar c = true) : IsAscii c :=
  (isTokenChar_iff.mp h).1

theorem Takes.isAscii {text : List Char} {n : Nat} (h : Takes text n) :
    ∀ c ∈ text.take n, IsAscii c :=
  fun c hc => isAscii_of_isTokenChar (h.plain c hc)

theorem Takes.utf8Size_take {text : List Char} {n : Nat} (h : Takes text n) :
    utf8Size (text.take n) = n := by
  rw [Text.utf8Size_eq_length h.isAscii, List.length_take]
  exact Nat.min_eq_left h.fits

theorem Operator.atStart?_blurred (text : List Char) : atStart? (blurred text) = atStart? text := by
  have hall : tokens.all (fun entry => entry.1.all isTokenChar) = true := by decide
  have hfind : tokens.find? (fun entry => entry.1.isPrefixOf (blurred text)) =
      tokens.find? fun entry => entry.1.isPrefixOf text := by
    refine List.find?_congr fun entry hentry => Text.isPrefixOf_blurred (fun t ht => ?_) text
    exact isAscii_of_isTokenChar (List.all_eq_true.mp (List.all_eq_true.mp hall entry hentry) t ht)
  exact congrArg (Option.map _) hfind

theorem Cast.atStart?_blurred (text : List Char) : atStart? (blurred text) = atStart? text := by
  have hall : tokens.all (fun entry => entry.1.all isTokenChar) = true := by decide
  have hfind : tokens.find? (fun entry => Text.startsLike entry.1 (blurred text)) =
      tokens.find? fun entry => Text.startsLike entry.1 text := by
    refine List.find?_congr fun entry hentry => Text.startsLike_blurred (fun t ht => ?_) text
    exact isAscii_of_isTokenChar (List.all_eq_true.mp (List.all_eq_true.mp hall entry hentry) t ht)
  exact congrArg (Option.map _) hfind

theorem Literal.atStart?_blurred (moduleBase : UInt32) (text : List Char) :
    atStart? moduleBase (blurred text) = atStart? moduleBase text := by
  have hmark : ∀ mark : List Char, mark.all isTokenChar = true →
      Text.startsLike mark (blurred text) = Text.startsLike mark text := fun mark hmark =>
    Text.startsLike_blurred
      (fun t ht => isAscii_of_isTokenChar (List.all_eq_true.mp hmark t ht)) text
  have hhex : ∀ text, hexRun (blurred text) = hexRun text :=
    Text.takeWhile_blurred fun _ h => isAscii_of_isTokenChar (isTokenChar_of_isHexDigit h)
  have hdecimal : ∀ text, decimalRun (blurred text) = decimalRun text :=
    Text.takeWhile_blurred fun _ h => isAscii_of_isTokenChar (isTokenChar_of_isDigit h)
  have hdrop : ∀ mark : List Char, mark.all isTokenChar = true →
      Text.startsLike mark text = true →
        (blurred text).drop mark.length = blurred (text.drop mark.length) := fun mark hmark h =>
    Text.drop_blurred (takes_of_startsLike hmark h).isAscii
  rw [atStart?, atStart?, hmark _ (by decide), hmark _ (by decide), hmark _ (by decide)]
  split
  · rename_i h
    exact congrArg (marked? 2 0 16) ((congrArg hexRun (hdrop _ (by decide) h)).trans (hhex _))
  split
  · rename_i h
    exact congrArg (marked? 2 moduleBase 16)
      ((congrArg hexRun (hdrop _ (by decide) h)).trans (hhex _))
  split
  · rename_i h
    exact congrArg (marked? 1 moduleBase 10)
      ((congrArg decimalRun (hdrop _ (by decide) h)).trans (hdecimal _))
  · have hfirst : (blurred text).head?.any Char.isDigit = text.head?.any Char.isDigit :=
      Text.any_head?_blurred (fun _ h => isAscii_of_isTokenChar (isTokenChar_of_isDigit h)) text
    rw [plain?, plain?, hfirst]
    simp only [hhex]

/-- A character beyond ASCII is told from every ASCII one by its first byte. -/
theorem head?_blurred (text : List Char) :
    (blurred text).head? = text.head? ∨
      ∃ first byte, text.head? = some first ∧ (blurred text).head? = some byte ∧
        ¬ IsAscii first ∧ ¬ IsAscii byte := by
  cases text with
  | nil => exact .inl rfl
  | cons c cs =>
      by_cases hc : IsAscii c
      · rw [Text.blurred_cons_of_isAscii hc]
        exact .inl rfl
      · obtain ⟨d, ds, hblur, hd, -⟩ := Text.blurred_cons_of_not_isAscii hc cs
        rw [hblur]
        exact .inr ⟨c, d, rfl, rfl, hc, hd⟩

namespace Expression.Buffer

/-! ## One access after the other -/

section Runs

variable {α β : Type} {read : Reader α} {f : α → Reader β} {place now : Place}

theorem run_bind {a : α} (h : read place = .ok a now) : (read >>= f) place = f a now := by
  show EStateM.bind read f place = f a now
  rw [EStateM.bind, h]

theorem run_bind_error {stop : Stop} (h : read place = .error stop now) :
    (read >>= f) place = .error stop now := by
  show EStateM.bind read f place = .error stop now
  rw [EStateM.bind, h]

theorem bind_congr_at {read' : Reader α} (h : read place = read' now) :
    (read >>= f) place = (read' >>= f) now := by
  show EStateM.bind read f place = EStateM.bind read' f now
  rw [EStateM.bind, EStateM.bind, h]

theorem bind_get (f : Place → Reader β) (place : Place) :
    ((get : Reader Place) >>= f) place = f place place := rfl

theorem bind_modify (enter : Place → Place) (read : Reader β) (place : Place) :
    ((modify enter : Reader PUnit) >>= fun _ => read) place = read (enter place) := rfl

theorem restoring_ok {restore : Place → Place → Place} {a : α} (h : read place = .ok a now) :
    restoring restore read place = .ok a (restore place now) := by
  rw [restoring, h]

theorem restoring_error {restore : Place → Place → Place} {stop : Stop}
    (h : read place = .error stop now) :
    restoring restore read place = .error stop (restore place now) := by
  rw [restoring, h]

end Runs

/-! ## Slices of a text -/

theorem isBoundary_encoded (before after : List Char) :
    isBoundary (encoded (before ++ after)) (utf8Size before) = true := by
  have hindex : (encoded (before ++ after))[utf8Size before]? = (encoded after).head? := by
    rw [Text.encoded_append, ← Text.length_encoded, List.getElem?_append_right (Nat.le_refl _),
      Nat.sub_self, List.head?_eq_getElem?]
  rw [isBoundary, hindex]
  cases after with
  | nil =>
      rw [List.append_nil, Text.length_encoded]
      exact decide_eq_true rfl
  | cons c cs =>
      obtain ⟨byte, hhead, hfirst⟩ := Text.head?_encoded c cs
      rw [hhead]
      exact decide_eq_true hfirst

theorem slice_encoded (before middle after : List Char) (place : Place) :
    slice (encoded (before ++ (middle ++ after))) (utf8Size before)
      (utf8Size before + utf8Size middle) place = .ok (encoded middle) place := by
  have hfirst := isBoundary_encoded before (middle ++ after)
  have hlast := isBoundary_encoded (before ++ middle) after
  rw [List.append_assoc, Text.utf8Size_append] at hlast
  have hlength : (encoded (before ++ (middle ++ after))).length =
      utf8Size before + (utf8Size middle + utf8Size after) := by
    rw [Text.length_encoded, Text.utf8Size_append, Text.utf8Size_append]
  have hslice : ((encoded (before ++ (middle ++ after))).take
      (utf8Size before + utf8Size middle)).drop (utf8Size before) = encoded middle := by
    rw [Text.encoded_append, Text.encoded_append, ← Text.length_encoded before,
      ← Text.length_encoded middle, List.drop_take, List.drop_left, Nat.add_sub_cancel_left,
      List.take_left]
  rw [slice, if_pos ⟨Nat.le_add_right .., by omega, hfirst, hlast⟩, hslice]
  rfl

/-! ## Places that mirror cursors -/

/-- What a reader may have changed on its way, but not for good. -/
structure Keeps (before after : Place) : Prop where
  limit : after.limit = before.limit
  skipping : after.skipping = before.skipping
  depth : after.depth = before.depth

theorem Keeps.refl (place : Place) : Keeps place place :=
  ⟨rfl, rfl, rfl⟩

theorem Keeps.trans {a b c : Place} (h : Keeps a b) (h' : Keeps b c) : Keeps a c where
  limit := h'.limit.trans h.limit
  skipping := h'.skipping.trans h.skipping
  depth := h'.depth.trans h.depth

/-- `place` stands in the bytes of `text` where `c` stands among its characters. -/
structure Mirrors (text : List Char) (place : Place) (c : Cursor) : Prop where
  around : ∃ before after, text = before ++ (c.rest ++ after) ∧ c.offset = utf8Size before
  position : place.position = c.offset
  limit : place.limit = c.ending
  reads : place.reads = c.reads

variable {text : List Char} {place : Place} {c : Cursor}

theorem Mirrors.moved (h : Mirrors text place c) {used : List Char} {c' : Cursor}
    (hrest : c.rest = used ++ c'.rest) (hoffset : c'.offset = c.offset + utf8Size used)
    {place' : Place} (hposition : place'.position = c'.offset) (hlimit : place'.limit = place.limit)
    (hreads : place'.reads = c'.reads) : Mirrors text place' c' where
  around := by
    obtain ⟨before, after, htext, hbefore⟩ := h.around
    refine ⟨before ++ used, after, ?_, ?_⟩
    · rw [htext, hrest, List.append_assoc, List.append_assoc]
    · rw [hoffset, hbefore, Text.utf8Size_append]
  position := hposition
  limit := by
    rw [hlimit, h.limit, Cursor.ending, Cursor.ending, hrest, hoffset, Text.utf8Size_append,
      Nat.add_assoc]
  reads := hreads

theorem Mirrors.inside (h : Mirrors text place c) {opens closes : Char} (hopens : IsAscii opens)
    {close : Nat} {inner : List Char} (hpair : c.Pair opens closes close inner) {place' : Place}
    (hposition : place'.position = place.position + 1)
    (hlimit : place'.limit = c.offset + utf8Size (c.rest.take close))
    (hreads : place'.reads = place.reads) : Mirrors text place' (c.inside close) := by
  obtain ⟨before, after, htext, hbefore⟩ := h.around
  obtain ⟨rest, hrest⟩ := hpair.split
  have hone : utf8Size [opens] = 1 := by
    rw [Text.utf8Size_cons, Text.utf8Size_of_isAscii hopens]
    rfl
  have hoffset : (c.inside close).offset = c.offset + 1 := by
    show c.offset + utf8Size (c.rest.take 1) = _
    rw [hrest, List.take_succ_cons, List.take_zero, hone]
  refine ⟨⟨before ++ [opens], closes :: (rest ++ after), ?_, ?_⟩, ?_, ?_, hreads.trans h.reads⟩
  · rw [htext, hrest, hpair.inside_rest, List.append_assoc]
    simp only [List.cons_append, List.nil_append, List.append_assoc]
  · rw [hoffset, hbefore, Text.utf8Size_append, hone]
  · rw [hposition, hoffset, h.position]
  · rw [hlimit, Cursor.ending, hoffset, hpair.inside_rest, hpair.take, Text.utf8Size_cons,
      Text.utf8Size_of_isAscii hopens, Nat.add_assoc]

theorem Mirrors.behind (h : Mirrors text place c) {opens closes : Char} (hcloses : IsAscii closes)
    {close : Nat} {inner : List Char} (hpair : c.Pair opens closes close inner) {place' : Place}
    {reached : Cursor} (hposition : place'.position = c.offset + utf8Size (c.rest.take close) + 1)
    (hlimit : place'.limit = place.limit) (hreads : place'.reads = reached.reads) :
    Mirrors text place' (c.behind close reached) := by
  refine h.moved (hpair.behind_rest reached) (hpair.behind_offset reached) ?_ hlimit hreads
  rw [hposition, hpair.behind_offset, hpair.take, ← List.cons_append, Text.utf8Size_append,
    Text.utf8Size_cons closes, Text.utf8Size_of_isAscii hcloses, Nat.add_assoc]
  rfl

theorem slice_of_pair (h : Mirrors text place c) {opens closes : Char} (hopens : IsAscii opens)
    {close : Nat} {inner : List Char} (hpair : c.Pair opens closes close inner) :
    slice (encoded text) (c.offset + 1) (c.offset + utf8Size (c.rest.take close)) place =
      .ok (encoded inner) place := by
  obtain ⟨before, after, htext, hbefore⟩ := h.around
  obtain ⟨rest, hrest⟩ := hpair.split
  have hone : utf8Size [opens] = 1 := by
    rw [Text.utf8Size_cons, Text.utf8Size_of_isAscii hopens]
    rfl
  have hsplit : text = (before ++ [opens]) ++ (inner ++ (closes :: (rest ++ after))) := by
    rw [htext, hrest, List.append_assoc]
    simp only [List.cons_append, List.nil_append, List.append_assoc]
  have hslice := slice_encoded (before ++ [opens]) inner (closes :: (rest ++ after)) place
  rwa [← hsplit, Text.utf8Size_append, hone, ← hbefore, Nat.add_assoc, ← hone,
    ← Text.utf8Size_append, List.singleton_append, ← hpair.take, hone] at hslice

theorem Mirrors.limit_sub (h : Mirrors text place c) :
    place.limit - place.position = utf8Size c.rest := by
  rw [h.limit, h.position, Cursor.ending, Nat.add_sub_cancel_left]

theorem rest_of_mirrors (h : Mirrors text place c) :
    rest (encoded text) place = .ok (encoded c.rest) place := by
  obtain ⟨before, after, htext, hoffset⟩ := h.around
  show slice (encoded text) place.position place.limit place = _
  rw [h.position, h.limit, Cursor.ending, hoffset, htext]
  exact slice_encoded before c.rest after place

theorem byteAt_append (front back : List UInt8) (byte : UInt8) (place : Place) :
    byteAt (front ++ byte :: back) front.length place = .ok byte place := by
  rw [byteAt, List.getElem?_append_right (Nat.le_refl _), Nat.sub_self]
  rfl

theorem peek_of_mirrors (h : Mirrors text place c) :
    peek (encoded text) place = .ok (blurred c.rest).head? place := by
  obtain ⟨before, after, htext, hoffset⟩ := h.around
  rw [peek, bind_get]
  rcases hrest : c.rest with _ | ⟨first, others⟩
  · rw [if_neg (by rw [h.limit, h.position, Cursor.ending, hrest]; exact Nat.lt_irrefl _)]
    rfl
  · have hpos := first.utf8Size_pos
    have hlimit : place.limit = place.position + (first.utf8Size + utf8Size others) := by
      rw [h.limit, h.position, Cursor.ending, hrest, Text.utf8Size_cons]
    have hposition : place.position = (encoded before).length := by
      rw [Text.length_encoded, h.position, hoffset]
    obtain ⟨byte, hhead, -⟩ := Text.head?_encoded first others
    obtain ⟨bytes, hencode⟩ := List.head?_eq_some_iff.mp hhead
    have hinput : encoded text = encoded before ++ byte :: (bytes ++ encoded after) := by
      rw [htext, Text.encoded_append, Text.encoded_append, hrest, hencode]
      rfl
    have hboundary : isBoundary (encoded text) place.position = true := by
      rw [htext, h.position, hoffset]
      exact isBoundary_encoded before _
    rw [if_pos (by omega), if_pos hboundary, hinput, hposition,
      run_bind (byteAt_append (encoded before) _ byte place), blurred, hencode]
    rfl

theorem unknown_of_mirrors {α : Type} (h : Mirrors text place c) {first : Char}
    (hfirst : c.peek? = some first) (byte : Char) :
    (unknown (encoded text) byte : Reader α) place =
      .error (.failed (.unknownCharacter first c.offset)) place := by
  obtain ⟨before, after, htext, hoffset⟩ := h.around
  obtain ⟨others, hrest⟩ := List.head?_eq_some_iff.mp hfirst
  have hslice : slice (encoded text) place.position (encoded text).length place =
      .ok (encoded (c.rest ++ after)) place := by
    have hall := slice_encoded before (c.rest ++ after) [] place
    rw [List.append_nil] at hall
    rw [Text.length_encoded, htext, h.position, hoffset, Text.utf8Size_append]
    exact hall
  rw [unknown, bind_get, run_bind hslice, Text.decoded?_encoded, hrest, h.position]
  rfl

theorem advance_of_mirrors (h : Mirrors text place c) {length : Nat}
    (htakes : Takes c.rest length) :
    ∃ now, advance (encoded text) length place = .ok () now ∧ Keeps place now ∧
      Mirrors text now (c.advance length) := by
  obtain ⟨before, after, htext, hoffset⟩ := h.around
  have hsplit : c.rest = c.rest.take length ++ c.rest.drop length := (List.take_append_drop ..).symm
  have hslice : slice (encoded text) place.position (place.position + length) place =
      .ok (encoded (c.rest.take length)) place := by
    have hall := slice_encoded before (c.rest.take length) (c.rest.drop length ++ after) place
    rwa [← List.append_assoc (c.rest.take length), ← hsplit, htakes.utf8Size_take, ← htext,
      ← hoffset, ← h.position] at hall
  have hnext : place.position + length = (c.advance length).offset := by
    rw [h.position]
    exact congrArg (c.offset + ·) htakes.utf8Size_take.symm
  have hle : place.position + length ≤ place.limit := by
    rw [h.limit, h.position, Cursor.ending, hsplit, Text.utf8Size_append, htakes.utf8Size_take]
    omega
  refine ⟨{ place with position := place.position + length }, ?_, ⟨rfl, rfl, rfl⟩,
    h.moved (Cursor.passed_advance htakes).rest rfl hnext rfl h.reads⟩
  rw [advance, bind_get, run_bind hslice, if_pos hle]
  rfl

/-! ## Blanks -/

theorem skipSpace_of_solid {c : Cursor} (h : c.peek?.any Cursor.isSpace = false) :
    c.skipSpace = c := by
  have hnone : c.rest.takeWhile Cursor.isSpace = [] := by
    rcases hrest : c.rest with _ | ⟨first, others⟩
    · rfl
    · rw [Cursor.peek?, hrest, List.head?_cons, Option.any_some] at h
      rw [List.takeWhile_cons_of_neg (by rw [h]; exact Bool.false_ne_true)]
  rw [Cursor.skipSpace, hnone]
  rfl

theorem advance_advance (c : Cursor) (n m : Nat) : (c.advance n).advance m = c.advance (n + m) := by
  rw [Cursor.advance, Cursor.advance, Cursor.advance, List.take_add, Text.utf8Size_append,
    List.drop_drop, Nat.add_assoc]

theorem skipSpace_of_blank {c : Cursor} {first : Char} {others : List Char}
    (hrest : c.rest = first :: others) (hblank : Cursor.isSpace first = true) :
    (c.advance 1).skipSpace = c.skipSpace := by
  have hwhile : c.rest.takeWhile Cursor.isSpace = first :: others.takeWhile Cursor.isSpace := by
    rw [hrest, List.takeWhile_cons_of_pos hblank]
  have hnext : (c.advance 1).rest = others := by
    rw [Cursor.advance, hrest]
    rfl
  rw [Cursor.skipSpace, hnext, advance_advance, Nat.add_comm, Cursor.skipSpace, hwhile,
    List.length_cons]

/-- Blanks are skipped in fewer steps than there are bytes up to the limit. -/
theorem skipBlanksIn_of_mirrors (steps : Nat) :
    ∀ {place : Place} {c : Cursor}, Mirrors text place c → utf8Size c.rest < steps →
      ∃ now, skipBlanksIn (encoded text) steps place = .ok () now ∧ Keeps place now ∧
        Mirrors text now c.skipSpace := by
  induction steps with
  | zero => exact fun _ hsteps => absurd hsteps (Nat.not_lt_zero _)
  | succ steps ih =>
      intro place c h hsteps
      have hany : (blurred c.rest).head?.any Cursor.isSpace = c.peek?.any Cursor.isSpace :=
        Text.any_head?_blurred
          (fun _ hb => isAscii_of_isTokenChar (isTokenChar_of_isSpace hb)) c.rest
      rw [skipBlanksIn, run_bind (peek_of_mirrors h), hany]
      by_cases hblank : c.peek?.any Cursor.isSpace = true
      · obtain ⟨first, hfirst, hspace⟩ := (Option.any_eq_true _ _).mp hblank
        obtain ⟨others, hrest⟩ := List.head?_eq_some_iff.mp hfirst
        have htakes : Takes c.rest 1 := hrest ▸ takes_sign (isTokenChar_of_isSpace hspace) others
        obtain ⟨next, hadvance, hkeeps, hnext⟩ := advance_of_mirrors h htakes
        have hfewer : utf8Size (c.advance 1).rest < steps := by
          have hpos := first.utf8Size_pos
          have hothers : (c.advance 1).rest = others := by
            rw [Cursor.advance, hrest]
            rfl
          rw [hrest, Text.utf8Size_cons] at hsteps
          rw [hothers]
          omega
        obtain ⟨now, hskip, hkeeps', hnow⟩ := ih hnext hfewer
        rw [skipSpace_of_blank hrest hspace] at hnow
        rw [if_pos hblank, run_bind hadvance]
        exact ⟨now, hskip, hkeeps.trans hkeeps', hnow⟩
      · rw [if_neg hblank, skipSpace_of_solid (Bool.eq_false_iff.mpr hblank)]
        exact ⟨place, rfl, .refl place, h⟩

theorem skipBlanks_of_mirrors (h : Mirrors text place c) :
    ∃ now, skipBlanks (encoded text) place = .ok () now ∧ Keeps place now ∧
      Mirrors text now c.skipSpace := by
  rw [skipBlanks, bind_get, h.limit_sub]
  exact skipBlanksIn_of_mirrors _ h (Nat.lt_succ_self _)

/-! ## Closing brackets and terminators -/

theorem asByte_inj {c d : Char} (hc : IsAscii c) (hd : IsAscii d) :
    asByte c = asByte d ↔ c = d := by
  refine ⟨fun h => ?_, congrArg asByte⟩
  rw [← Text.asChar_asByte hc, h, Text.asChar_asByte hd]

theorem ne_asByte_of_mem {c d : Char} (hc : ¬ IsAscii c) (hd : IsAscii d) {byte : UInt8}
    (hbyte : byte ∈ String.utf8EncodeChar c) : byte ≠ asByte d := by
  rintro rfl
  have hge := Text.le_of_mem_encode hc hbyte
  have hlt : (asByte d).toNat < 128 := by
    rw [asByte, UInt8.toNat_ofNat', Nat.mod_eq_of_lt (Nat.lt_trans hd (by decide))]
    exact hd
  omega

section Matching

variable {opens closes : Char} (error : ExpressionError)

theorem matchingIn_byte (front back : List UInt8) (byte : UInt8) (count depth : Nat)
    (place : Place) :
    matchingIn (front ++ byte :: back) opens closes error (count + 1) front.length depth place =
      let goOn := matchingIn (front ++ byte :: back) opens closes error count (front.length + 1)
      if byte = asByte opens then goOn (depth + 1) place
      else if byte = asByte closes then
        if depth = 0 then .error .crashed place
        else if depth = 1 then .ok front.length place
        else goOn (depth - 1) place
      else goOn depth place := by
  rw [matchingIn, run_bind (byteAt_append front back byte place)]
  dsimp only
  split
  · rfl
  · split
    · split
      · rfl
      · split <;> rfl
    · rfl

theorem matchingIn_skip {bytes : List UInt8}
    (h : ∀ byte ∈ bytes, byte ≠ asByte opens ∧ byte ≠ asByte closes) (front back : List UInt8)
    (count depth : Nat) (place : Place) :
    matchingIn (front ++ (bytes ++ back)) opens closes error (bytes.length + count) front.length
        depth place =
      matchingIn (front ++ (bytes ++ back)) opens closes error count (front.length + bytes.length)
        depth place := by
  induction bytes generalizing front with
  | nil => rw [List.length_nil, Nat.zero_add, Nat.add_zero]
  | cons byte bytes ih =>
      obtain ⟨hopens, hcloses⟩ := h byte List.mem_cons_self
      have hsplit : front ++ (byte :: bytes ++ back) = (front ++ [byte]) ++ (bytes ++ back) := by
        rw [List.append_assoc]
        rfl
      have hcount : (byte :: bytes).length + count = (bytes.length + count) + 1 := by
        rw [List.length_cons]
        omega
      have hlength :
          front.length + (byte :: bytes).length = (front ++ [byte]).length + bytes.length := by
        rw [List.length_append, List.length_singleton, List.length_cons]
        omega
      have hrest := ih (fun b hb => h b (List.mem_cons_of_mem _ hb)) (front ++ [byte])
      rw [← hsplit, ← hlength, List.length_append, List.length_singleton] at hrest
      rw [hcount, List.cons_append, matchingIn_byte]
      dsimp only
      rw [if_neg hopens, if_neg hcloses, ← List.cons_append, hrest]

/-- One character of the search, however many bytes it has. -/
theorem matchingIn_cons (hopens : IsAscii opens) (hcloses : IsAscii closes) (c : Char)
    (before behind : List Char) (count depth : Nat) (place : Place) :
    matchingIn (encoded (before ++ c :: behind)) opens closes error (c.utf8Size + count)
        (utf8Size before) depth place =
      let goOn := matchingIn (encoded (before ++ c :: behind)) opens closes error count
        (utf8Size before + c.utf8Size)
      if c = opens then goOn (depth + 1) place
      else if c = closes then
        if depth = 0 then .error .crashed place
        else if depth = 1 then .ok (utf8Size before) place
        else goOn (depth - 1) place
      else goOn depth place := by
  have hinput : encoded (before ++ c :: behind) =
      encoded before ++ (String.utf8EncodeChar c ++ encoded behind) := by
    rw [Text.encoded_append, Text.encoded_cons]
  by_cases hc : IsAscii c
  · have hbyte : encoded (before ++ c :: behind) =
        encoded before ++ asByte c :: encoded behind := by
      rw [hinput, Text.encode_of_isAscii hc]
      rfl
    rw [Text.utf8Size_of_isAscii hc, ← Text.length_encoded before, Nat.add_comm 1, hbyte,
      matchingIn_byte]
    simp only [asByte_inj hc hopens, asByte_inj hc hcloses]
  · have hplain : ∀ byte ∈ String.utf8EncodeChar c,
        byte ≠ asByte opens ∧ byte ≠ asByte closes := fun byte hbyte =>
      ⟨ne_asByte_of_mem hc hopens hbyte, ne_asByte_of_mem hc hcloses hbyte⟩
    have hskip := matchingIn_skip error hplain (encoded before) (encoded behind) count depth place
    rw [← hinput, String.length_utf8EncodeChar, Text.length_encoded] at hskip
    have hne : c ≠ opens ∧ c ≠ closes := by
      constructor <;> rintro rfl
      · exact hc hopens
      · exact hc hcloses
    dsimp only
    rw [hskip, if_neg hne.1, if_neg hne.2]

/-- The bytes are searched for the bracket that closes with the outcome of a search among
the characters, once a bracket is open. -/
theorem matchingIn_eq (hopens : IsAscii opens) (hcloses : IsAscii closes) (chars : List Char) :
    ∀ (before after : List Char) (depth : Nat), 1 ≤ depth → ∀ place : Place,
      matchingIn (encoded (before ++ (chars ++ after))) opens closes error (utf8Size chars)
          (utf8Size before) depth place =
        match Cursor.closing? opens closes depth chars with
        | some close => .ok (utf8Size before + utf8Size (chars.take close)) place
        | none => .error (.failed error) place := by
  induction chars with
  | nil => exact fun _ _ _ _ _ => rfl
  | cons c cs ih =>
      intro before after depth hdepth place
      have hsplit : (before ++ [c]) ++ (cs ++ after) = before ++ c :: (cs ++ after) := by
        rw [List.append_assoc]
        rfl
      have hsize : utf8Size (before ++ [c]) = utf8Size before + c.utf8Size := by
        rw [Text.utf8Size_append]
        rfl
      -- Behind `c`, what is found is further on by the size of `c`.
      have hfurther : ∀ depth', 1 ≤ depth' →
          matchingIn (encoded (before ++ c :: (cs ++ after))) opens closes error (utf8Size cs)
            (utf8Size before + c.utf8Size) depth' place =
          match (Cursor.closing? opens closes depth' cs).map (· + 1) with
          | some close => .ok (utf8Size before + utf8Size ((c :: cs).take close)) place
          | none => .error (.failed error) place := by
        intro depth' hdepth'
        have hrest := ih (before ++ [c]) after depth' hdepth' place
        rw [hsplit, hsize] at hrest
        rw [hrest]
        rcases Cursor.closing? opens closes depth' cs with _ | close
        · rfl
        · simp only [Option.map_some, List.take_succ_cons, Text.utf8Size_cons, Nat.add_assoc]
      rw [Text.utf8Size_cons, List.cons_append, matchingIn_cons error hopens hcloses,
        Cursor.closing?]
      dsimp only
      split
      · exact hfurther _ (Nat.le_add_left 1 depth)
      split
      · rw [if_neg (by omega)]
        by_cases hone : depth = 1
        · rw [if_pos hone, if_pos (by omega)]
          rfl
        · rw [if_neg hone, if_neg (by omega)]
          exact hfurther _ (by omega)
      · exact hfurther depth hdepth

theorem matching_of_mirrors (h : Mirrors text place c) (hopens : IsAscii opens)
    (hcloses : IsAscii closes) (hpeek : c.peek? = some opens) :
    matching (encoded text) opens closes error place =
      match Cursor.closing? opens closes 0 c.rest with
      | some close => .ok (c.offset + utf8Size (c.rest.take close)) place
      | none => .error (.failed error) place := by
  obtain ⟨before, after, htext, hoffset⟩ := h.around
  obtain ⟨others, hrest⟩ := List.head?_eq_some_iff.mp hpeek
  have hone : opens.utf8Size = 1 := Text.utf8Size_of_isAscii hopens
  have hinput : encoded text = encoded before ++ asByte opens :: encoded (others ++ after) := by
    rw [htext, hrest, Text.encoded_append, List.cons_append, Text.encoded_cons,
      Text.encode_of_isAscii hopens]
    rfl
  have hsplit : text = (before ++ [opens]) ++ (others ++ after) := by
    rw [htext, hrest, List.append_assoc]
    rfl
  have hsize : utf8Size (before ++ [opens]) = utf8Size before + 1 := by
    rw [Text.utf8Size_append, Text.utf8Size_cons, hone]
    rfl
  have hinside := matchingIn_eq error hopens hcloses others (before ++ [opens]) after 1
    (Nat.le_refl 1) place
  rw [← hsplit, hsize] at hinside
  rw [matching, bind_get, h.limit_sub, hrest, Text.utf8Size_cons, hone, Nat.add_comm 1,
    h.position, hoffset, ← Text.length_encoded before, hinput, matchingIn_byte, ← hinput]
  dsimp only
  rw [if_pos rfl, Text.length_encoded, Nat.zero_add, hinside, Cursor.closing?, if_pos rfl,
    Nat.zero_add]
  rcases Cursor.closing? opens closes 1 others with _ | close
  · rfl
  · simp only [Option.map_some, List.take_succ_cons, Text.utf8Size_cons, hone, Nat.add_assoc]

end Matching

section Terminators

variable {stop : Char}

theorem terminatorFrom_skip {bytes : List UInt8}
    (h : ∀ byte ∈ bytes, ∀ mark, IsAscii mark → byte ≠ asByte mark) (hstop : IsAscii stop)
    (index : Nat) (depth : Int) (back : List UInt8) :
    terminatorFrom (asByte stop) index depth (bytes ++ back) =
      terminatorFrom (asByte stop) (index + bytes.length) depth back := by
  induction bytes generalizing index with
  | nil => rfl
  | cons byte bytes ih =>
      have hne := h byte List.mem_cons_self
      have hplain : ¬ (byte = asByte '(' ∨ byte = asByte '[') ∧
          ¬ (byte = asByte ')' ∨ byte = asByte ']') := by
        constructor <;> rintro (heq | heq) <;> exact hne _ (by decide) heq
      rw [List.cons_append, terminatorFrom, if_neg fun hand => hne stop hstop hand.1,
        if_neg hplain.1, if_neg hplain.2, ih fun b hb => h b (List.mem_cons_of_mem _ hb)]
      rw [List.length_cons]
      congr 1
      omega

theorem terminatorFrom_encoded (hstop : IsAscii stop) (chars : List Char) :
    ∀ (index : Nat) (depth : Int), terminatorFrom (asByte stop) index depth (encoded chars) =
      (before? stop depth chars).map fun front => index + utf8Size front := by
  induction chars with
  | nil => exact fun _ _ => rfl
  | cons c cs ih =>
      intro index depth
      have hfurther : ∀ depth',
          terminatorFrom (asByte stop) (index + c.utf8Size) depth' (encoded cs) =
          ((before? stop depth' cs).map (c :: ·)).map fun front => index + utf8Size front := by
        intro depth'
        rw [ih, Option.map_map]
        refine congrArg (Option.map · _) (funext fun front => ?_)
        show _ = index + utf8Size (c :: front)
        rw [Text.utf8Size_cons, Nat.add_assoc]
      rw [Text.encoded_cons, before?]
      by_cases hc : IsAscii c
      · rw [Text.utf8Size_of_isAscii hc] at hfurther
        rw [Text.encode_of_isAscii hc, List.singleton_append, terminatorFrom]
        simp only [asByte_inj hc hstop, asByte_inj hc (by decide : IsAscii '('),
          asByte_inj hc (by decide : IsAscii '['), asByte_inj hc (by decide : IsAscii ')'),
          asByte_inj hc (by decide : IsAscii ']')]
        split
        · rfl
        · exact hfurther _
      · have hne : ∀ mark, IsAscii mark → c ≠ mark := fun mark hmark heq => hc (heq ▸ hmark)
        have hplain : ¬ (c = '(' ∨ c = '[') ∧ ¬ (c = ')' ∨ c = ']') := by
          constructor <;> rintro (heq | heq) <;> exact hne _ (by decide) heq
        rw [terminatorFrom_skip (fun b hb mark hmark => ne_asByte_of_mem hc hmark hb) hstop,
          String.length_utf8EncodeChar, if_neg fun hand => hne stop hstop hand.1, if_neg hplain.1,
          if_neg hplain.2]
        exact hfurther depth

theorem limit_encoded (stop : Option Char) (hstop : ∀ mark ∈ stop, IsAscii mark)
    (text : List Char) :
    limit (stop.map asByte) (encoded text) = utf8Size (window stop text) := by
  rcases stop with _ | stop
  · exact Text.length_encoded text
  · show (terminatorFrom (asByte stop) 0 0 (encoded text)).getD _ =
      utf8Size ((before? stop 0 text).getD text)
    rw [terminatorFrom_encoded (hstop stop rfl)]
    rcases before? stop 0 text with _ | front
    · exact Text.length_encoded text
    · exact Nat.zero_add _

end Terminators

end Expression.Buffer
end CodePatch
