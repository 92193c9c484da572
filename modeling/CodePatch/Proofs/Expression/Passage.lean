/-
# What reading passes over

Reading goes from left to right and stops where it is (`Passed`).  What lies between two places of a
text is told from the characters there, whatever was made of them:

* the place that is reached is as far on as the characters passed over are long;
* nothing is read from memory but for a square bracket;
* square brackets are closed as often as they are opened.  Only a name between `<` and `>` may hold
  a bracket of its own, since it is looked up as it stands.

The tokens of the language are made of ASCII and hold no square bracket (`Takes`), so all of this
comes down to what happens at brackets (`Pair`).  An error is about a place, too: it points at the
character that it speaks of (`PointsFrom`).
-/
import CodePatch.Proofs.Expression.Reading
import CodePatch.Proofs.Text.HexDigits
import CodePatch.Proofs.Text.Utf8
import CodePatch.Expression.Evaluate

namespace CodePatch

/-! ## What tokens are made of -/

/-- Can tokens be made of `c`?  It must be ASCII, and no square bracket. -/
def isTokenChar (c : Char) : Bool :=
  c.toNat < 128 && c != '[' && c != ']'

theorem isTokenChar_iff {c : Char} :
    isTokenChar c = true ↔ Text.IsAscii c ∧ c ≠ '[' ∧ c ≠ ']' := by
  rw [isTokenChar, Bool.and_eq_true, Bool.and_eq_true, decide_eq_true_eq, bne_iff_ne, bne_iff_ne,
    and_assoc]
  rfl

theorem isTokenChar_toLower_iff (c : Char) :
    isTokenChar c.toLower = true ↔ isTokenChar c = true := by
  rcases Text.toLower_cases c with h | ⟨hge, hle, hlower⟩
  · rw [h]
  · have hopen : '['.toNat = 91 := rfl
    have hclose : ']'.toNat = 93 := rfl
    rw [isTokenChar_iff, isTokenChar_iff]
    unfold Text.IsAscii
    refine iff_of_true ⟨by omega, ?_, ?_⟩ ⟨by omega, ?_, ?_⟩
    all_goals
      intro heq
      have hnat := congrArg Char.toNat heq
      omega

theorem isTokenChar_of_isHexDigit {c : Char} (h : Text.isHexDigit c = true) :
    isTokenChar c = true := by
  have hle : c.toNat ≤ 102 := by
    rcases Text.bounds_of_isHexDigit h with hb | hb | hb <;> omega
  exact isTokenChar_iff.mpr ⟨Nat.lt_of_le_of_lt hle (by decide), Text.ne_of_isHexDigit h rfl,
    Text.ne_of_isHexDigit h rfl⟩

theorem isTokenChar_of_isDigit {c : Char} (h : c.isDigit = true) : isTokenChar c = true :=
  isTokenChar_of_isHexDigit (Text.isHexDigit_of_isDigit h)

theorem isTokenChar_of_isSpace {c : Char} (h : Cursor.isSpace c = true) : isTokenChar c = true := by
  simp only [Cursor.isSpace, Bool.or_eq_true, decide_eq_true_eq] at h
  rcases h with ((rfl | rfl) | rfl) | rfl <;> decide

/-- A token of `length` characters can be taken from the start of `text`. -/
structure Takes (text : List Char) (length : Nat) : Prop where
  fits : length ≤ text.length
  plain : ∀ c ∈ text.take length, isTokenChar c = true

theorem Takes.append {text : List Char} {n m : Nat} (h : Takes text n)
    (h' : Takes (text.drop n) m) : Takes text (n + m) where
  fits := by
    have hn := h.fits
    have hm := h'.fits
    rw [List.length_drop] at hm
    omega
  plain c hc := by
    rw [List.take_add, List.mem_append] at hc
    exact hc.elim (h.plain c) (h'.plain c)

theorem takes_takeWhile {p : Char → Bool} (h : ∀ c, p c = true → isTokenChar c = true)
    (text : List Char) : Takes text (text.takeWhile p).length where
  fits := (List.takeWhile_prefix p).length_le
  plain c hc := by
    rw [← List.prefix_iff_eq_take.mp (List.takeWhile_prefix p)] at hc
    exact h c (List.mem_takeWhile_imp hc)

theorem tokenChars_of_sameLetters {token run : List Char} (htoken : token.all isTokenChar = true)
    (h : Text.sameLetters run token = true) :
    run.length = token.length ∧ ∀ c ∈ run, isTokenChar c = true := by
  have hlower : run.map Char.toLower = token.map Char.toLower := eq_of_beq h
  refine ⟨?_, fun c hc => ?_⟩
  · rw [← List.length_map (f := Char.toLower), hlower, List.length_map]
  · have hmem : c.toLower ∈ token.map Char.toLower := hlower ▸ List.mem_map_of_mem hc
    obtain ⟨t, ht, heq⟩ := List.mem_map.mp hmem
    rw [← isTokenChar_toLower_iff, ← heq, isTokenChar_toLower_iff]
    exact List.all_eq_true.mp htoken t ht

theorem takes_of_startsLike {token text : List Char} (htoken : token.all isTokenChar = true)
    (h : Text.startsLike token text = true) : Takes text token.length := by
  obtain ⟨hlength, hplain⟩ := tokenChars_of_sameLetters htoken h
  rw [List.length_take] at hlength
  exact ⟨by omega, hplain⟩

theorem takes_sign {first : Char} (h : isTokenChar first = true) (rest : List Char) :
    Takes (first :: rest) 1 where
  fits := Nat.le_add_left 1 _
  plain c hc := by
    rw [List.take_succ_cons, List.take_zero, List.mem_singleton] at hc
    exact hc ▸ h

theorem Operator.takes_atStart? {text : List Char} {op : Operator} {length : Nat}
    (h : atStart? text = some (op, length)) : Takes text length ∧ 0 < length := by
  have hall : tokens.all (fun entry => entry.1.all isTokenChar && 0 < entry.1.length) =
      true := by decide
  rw [atStart?, Option.map_eq_some_iff] at h
  obtain ⟨entry, hfind, heq⟩ := h
  cases heq
  have hentry := List.all_eq_true.mp hall entry (List.mem_of_find?_eq_some hfind)
  rw [Bool.and_eq_true, decide_eq_true_eq] at hentry
  have hmatch : entry.1.isPrefixOf text = true :=
    List.find?_some (p := fun entry : List Char × Operator => entry.1.isPrefixOf text) hfind
  obtain ⟨rest, rfl⟩ := List.isPrefixOf_iff_prefix.mp hmatch
  refine ⟨⟨by rw [List.length_append]; exact Nat.le_add_right .., fun c hc => ?_⟩, hentry.2⟩
  rw [List.take_left] at hc
  exact List.all_eq_true.mp hentry.1 c hc

theorem Operator.head_of_divides {text : List Char} {op : Operator} {length : Nat}
    (h : atStart? text = some (op, length)) (hdivides : op.divides = true) :
    ∃ mark rest, text = mark :: rest ∧ mark ∈ ['/', '%'] := by
  have hall : tokens.all
      (fun entry => !entry.2.divides || entry.1.head?.any (['/', '%'].contains ·)) =
      true := by decide
  rw [atStart?, Option.map_eq_some_iff] at h
  obtain ⟨entry, hfind, heq⟩ := h
  cases heq
  have hentry := List.all_eq_true.mp hall entry (List.mem_of_find?_eq_some hfind)
  rw [hdivides, Bool.not_true, Bool.false_or, Option.any_eq_true] at hentry
  obtain ⟨mark, hhead, hmark⟩ := hentry
  have hmatch : entry.1.isPrefixOf text = true :=
    List.find?_some (p := fun entry : List Char × Operator => entry.1.isPrefixOf text) hfind
  obtain ⟨rest, rfl⟩ := List.isPrefixOf_iff_prefix.mp hmatch
  obtain ⟨more, hmore⟩ := List.head?_eq_some_iff.mp hhead
  exact ⟨mark, more ++ rest, by rw [hmore]; rfl, List.contains_iff_mem.mp hmark⟩

theorem Cast.takes_atStart? {text : List Char} {cast : Cast} {length : Nat}
    (h : atStart? text = some (cast, length)) : Takes text length := by
  have hall : tokens.all (fun entry => entry.1.all isTokenChar) = true := by decide
  rw [atStart?, Option.map_eq_some_iff] at h
  obtain ⟨entry, hfind, heq⟩ := h
  cases heq
  have hentry := List.all_eq_true.mp hall entry (List.mem_of_find?_eq_some hfind)
  have hmatch : Text.startsLike entry.1 text = true :=
    List.find?_some (p := fun entry : List Char × Cast => Text.startsLike entry.1 text) hfind
  exact takes_of_startsLike hentry hmatch

theorem Register.takes_atStart? {text : List Char} {register : Register}
    (h : atStart? text = some register) : Takes text nameLength := by
  have hname : register.name.toList.length = nameLength ∧
      register.name.toList.all isTokenChar = true := by
    cases register <;> decide
  rw [atStart?] at h
  split at h
  · cases h
  · have hmatch : Text.sameLetters register.name.toList (text.take nameLength) = true :=
      List.find?_some
        (p := fun r : Register => Text.sameLetters r.name.toList (text.take nameLength)) h
    have hsame : Text.sameLetters (text.take nameLength) register.name.toList = true :=
      beq_iff_eq.mpr (beq_iff_eq.mp hmatch).symm
    obtain ⟨hlength, hplain⟩ := tokenChars_of_sameLetters hname.2 hsame
    rw [hname.1, List.length_take] at hlength
    exact ⟨by omega, hplain⟩

namespace Literal

theorem takes_marked? {mark : Nat} {base radix v : UInt32} {run text : List Char} {length : Nat}
    (hmark : Takes text mark) (hrun : Takes (text.drop mark) run.length)
    (h : marked? mark base radix run = some (v, length)) : Takes text length := by
  rw [marked?] at h
  split at h
  · cases h
  · cases h
    exact hmark.append hrun

theorem takes_atStart? {moduleBase v : UInt32} {text : List Char} {length : Nat}
    (h : atStart? moduleBase text = some (v, length)) : Takes text length := by
  have hhex : ∀ text, Takes text (hexRun text).length :=
    takes_takeWhile fun _ => isTokenChar_of_isHexDigit
  have hdecimal : ∀ text, Takes text (decimalRun text).length :=
    takes_takeWhile fun _ => isTokenChar_of_isDigit
  rw [atStart?] at h
  split at h
  · rename_i hmark
    have htakes : Takes text 2 := takes_of_startsLike (by decide) hmark
    exact takes_marked? htakes (hhex _) h
  split at h
  · rename_i hmark
    have htakes : Takes text 2 := takes_of_startsLike (by decide) hmark
    exact takes_marked? htakes (hhex _) h
  split at h
  · rename_i hmark
    have htakes : Takes text 1 := takes_of_startsLike (by decide) hmark
    exact takes_marked? htakes (hdecimal _) h
  · rw [plain?] at h
    split at h
    · cases h
      exact hhex text
    · cases h

end Literal

/-! ## What lies between two places -/

namespace Cursor

/-- Reading went on from `c` to `c'` over the characters `used`. -/
structure Passed (used : List Char) (c c' : Cursor) : Prop where
  rest : c.rest = used ++ c'.rest
  offset : c'.offset = c.offset + Text.utf8Size used
  unread : '[' ∉ used → c'.reads = c.reads
  even : '<' ∉ used → used.count '[' = used.count ']'

theorem Passed.refl (c : Cursor) : Passed [] c c :=
  ⟨rfl, rfl, fun _ => rfl, fun _ => rfl⟩

theorem Passed.trans {used used' : List Char} {c c' c'' : Cursor} (h : Passed used c c')
    (h' : Passed used' c' c'') : Passed (used ++ used') c c'' where
  rest := by rw [h.rest, h'.rest, List.append_assoc]
  offset := by rw [h'.offset, h.offset, Text.utf8Size_append, Nat.add_assoc]
  unread hnot := by
    rw [List.mem_append, not_or] at hnot
    rw [h'.unread hnot.2, h.unread hnot.1]
  even hnot := by
    rw [List.mem_append, not_or] at hnot
    rw [List.count_append, List.count_append, h.even hnot.1, h'.even hnot.2]

theorem Passed.length_le {used : List Char} {c c' : Cursor} (h : Passed used c c') :
    c'.rest.length ≤ c.rest.length := by
  rw [h.rest, List.length_append]
  exact Nat.le_add_left ..

theorem Passed.size_le {used : List Char} {c c' : Cursor} (h : Passed used c c') :
    Text.utf8Size c'.rest ≤ Text.utf8Size c.rest := by
  rw [h.rest, Text.utf8Size_append]
  exact Nat.le_add_left ..

theorem passed_advance {c : Cursor} {length : Nat} (h : Takes c.rest length) :
    Passed (c.rest.take length) c (c.advance length) where
  rest := (List.take_append_drop ..).symm
  offset := rfl
  unread _ := rfl
  even _ := by
    have hnone : ∀ mark, isTokenChar mark = false → mark ∉ c.rest.take length := by
      intro mark hmark hmem
      rw [h.plain mark hmem] at hmark
      cases hmark
    rw [List.count_eq_zero.mpr (hnone '[' (by decide)),
      List.count_eq_zero.mpr (hnone ']' (by decide))]

theorem takes_blanks (c : Cursor) : Takes c.rest (c.rest.takeWhile isSpace).length :=
  takes_takeWhile (fun _ => isTokenChar_of_isSpace) c.rest

theorem passed_skipSpace (c : Cursor) : Passed (c.rest.takeWhile isSpace) c c.skipSpace := by
  have htake : c.rest.take (c.rest.takeWhile isSpace).length = c.rest.takeWhile isSpace :=
    (List.prefix_iff_eq_take.mp (List.takeWhile_prefix isSpace)).symm
  exact htake ▸ passed_advance c.takes_blanks

/-- The text of `inner` lies in that of `c`, in front of a closing bracket or up to its end. -/
structure Within (inner c : Cursor) : Prop where
  split : ∃ before behind, c.rest = before ++ (inner.rest ++ behind) ∧
    inner.offset = c.offset + Text.utf8Size before ∧
    (behind = [] ∨ ∃ mark more, behind = mark :: more ∧ mark ∈ [')', ']', '>'])
  unread : '[' ∉ c.rest → inner.reads = c.reads

theorem Passed.within {used : List Char} {c c' : Cursor} (h : Passed used c c') : Within c' c where
  split := ⟨used, [], by rw [List.append_nil]; exact h.rest, h.offset, .inl rfl⟩
  unread hnot := h.unread fun hmem => hnot (h.rest ▸ List.mem_append_left _ hmem)

/-- One of the characters `marks` stands at `offset`. -/
def Marks (c : Cursor) (offset : Nat) (marks : List Char) : Prop :=
  ∃ before mark behind, c.rest = before ++ mark :: behind ∧ mark ∈ marks ∧
    offset = c.offset + Text.utf8Size before

theorem marks_here {c : Cursor} {mark : Char} {marks : List Char} (h : c.peek? = some mark)
    (hmark : mark ∈ marks) : c.Marks c.offset marks := by
  obtain ⟨behind, hrest⟩ := List.head?_eq_some_iff.mp h
  exact ⟨[], mark, behind, hrest, hmark, rfl⟩

theorem Marks.outward {inner c : Cursor} {offset : Nat} {marks : List Char}
    (h : inner.Marks offset marks) (hwithin : Within inner c) : c.Marks offset marks := by
  obtain ⟨before, mark, behind, hrest, hmark, rfl⟩ := h
  obtain ⟨front, back, hsplit, hoffset, -⟩ := hwithin.split
  refine ⟨front ++ before, mark, behind ++ back, ?_, hmark, ?_⟩
  · rw [hsplit, hrest, List.append_assoc, List.append_assoc]
    rfl
  · rw [hoffset, Text.utf8Size_append, Nat.add_assoc]

/-- The offset behind the text of `c`. -/
def ending (c : Cursor) : Nat :=
  c.offset + Text.utf8Size c.rest

theorem ending_of_peek? {c : Cursor} (h : c.peek? = none) : c.offset = c.ending := by
  rw [ending, List.head?_eq_none_iff.mp h]
  rfl

/-! ## Pairs of brackets -/

theorem split_of_closing? {opens closes : Char} (hne : opens ≠ closes) {text : List Char}
    {depth k : Nat} (hdepth : 1 ≤ depth) (h : closing? opens closes depth text = some k) :
    ∃ before after, text = before ++ closes :: after ∧ before.length = k ∧
      before.count closes + 1 = before.count opens + depth := by
  induction text generalizing depth k with
  | nil => cases h
  | cons c cs ih =>
      rw [closing?] at h
      split at h
      · rename_i hopens
        obtain ⟨k', hk', rfl⟩ := Option.map_eq_some_iff.mp h
        obtain ⟨before, after, rfl, rfl, hcount⟩ := ih (Nat.le_add_left 1 depth) hk'
        refine ⟨c :: before, after, rfl, rfl, ?_⟩
        rw [hopens, List.count_cons_self, List.count_cons_of_ne hne]
        omega
      split at h
      · rename_i hcloses
        split at h
        · cases h
          refine ⟨[], cs, congrArg (· :: cs) hcloses, rfl, ?_⟩
          rw [List.count_nil, List.count_nil]
          omega
        · obtain ⟨k', hk', rfl⟩ := Option.map_eq_some_iff.mp h
          obtain ⟨before, after, rfl, rfl, hcount⟩ := ih (by omega) hk'
          refine ⟨c :: before, after, rfl, rfl, ?_⟩
          rw [hcloses, List.count_cons_self, List.count_cons_of_ne hne.symm]
          omega
      · rename_i hopens hcloses
        obtain ⟨k', hk', rfl⟩ := Option.map_eq_some_iff.mp h
        obtain ⟨before, after, rfl, rfl, hcount⟩ := ih hdepth hk'
        refine ⟨c :: before, after, rfl, rfl, ?_⟩
        rw [List.count_cons_of_ne hopens, List.count_cons_of_ne hcloses]
        exact hcount

/-- `inner` stands between a bracket at `c` and the one that closes it, `close` characters on. -/
structure Pair (opens closes : Char) (c : Cursor) (close : Nat) (inner : List Char) :
    Prop where
  split : ∃ rest, c.rest = opens :: (inner ++ closes :: rest)
  length : close = inner.length + 1
  even : inner.count opens = inner.count closes

theorem pair_of_closing? {opens closes : Char} (hne : opens ≠ closes) {c : Cursor}
    (hpeek : c.peek? = some opens) {close : Nat}
    (h : closing? opens closes 0 c.rest = some close) :
    ∃ inner, c.Pair opens closes close inner := by
  obtain ⟨text, hrest⟩ := List.head?_eq_some_iff.mp hpeek
  rw [hrest, closing?, if_pos rfl] at h
  obtain ⟨k, hk, rfl⟩ := Option.map_eq_some_iff.mp h
  obtain ⟨inner, rest, rfl, rfl, hcount⟩ := split_of_closing? hne (Nat.le_refl 1) hk
  exact ⟨inner, ⟨rest, hrest⟩, rfl, by omega⟩

namespace Pair

variable {opens closes : Char} {c : Cursor} {close : Nat} {inner : List Char}

theorem inside_rest (h : c.Pair opens closes close inner) : (c.inside close).rest = inner := by
  obtain ⟨rest, hrest⟩ := h.split
  rw [h.length]
  exact Expression.inside_pair hrest

theorem mem (h : c.Pair opens closes close inner) : opens ∈ c.rest := by
  obtain ⟨rest, hrest⟩ := h.split
  exact hrest ▸ List.mem_cons_self

theorem within (h : c.Pair opens closes close inner) (hmark : closes ∈ [')', ']', '>']) :
    (c.inside close).Within c where
  split := by
    obtain ⟨rest, hrest⟩ := h.split
    refine ⟨[opens], closes :: rest, ?_, ?_, .inr ⟨closes, rest, rfl, hmark⟩⟩
    · rw [h.inside_rest, hrest]
      rfl
    · show c.offset + Text.utf8Size (c.rest.take 1) = _
      rw [hrest, List.take_succ_cons, List.take_zero]
  unread _ := rfl

theorem take (h : c.Pair opens closes close inner) : c.rest.take close = opens :: inner := by
  obtain ⟨rest, hrest⟩ := h.split
  rw [hrest, h.length, List.take_succ_cons, List.take_left]

theorem behind_rest (h : c.Pair opens closes close inner) (reached : Cursor) :
    c.rest = (opens :: (inner ++ [closes])) ++ (c.behind close reached).rest := by
  obtain ⟨rest, hrest⟩ := h.split
  rw [h.length, Expression.behind_pair hrest, hrest, List.cons_append, List.append_assoc]
  rfl

theorem behind_offset (h : c.Pair opens closes close inner) (reached : Cursor) :
    (c.behind close reached).offset =
      c.offset + Text.utf8Size (opens :: (inner ++ [closes])) := by
  have hlength : close + 1 = (opens :: (inner ++ [closes])).length := by
    rw [h.length, List.length_cons, List.length_append, List.length_singleton]
  show c.offset + Text.utf8Size (c.rest.take (close + 1)) = _
  rw [h.behind_rest reached, hlength, List.take_left]

theorem passed (h : c.Pair opens closes close inner) (reached : Cursor)
    (hunread : '[' ∉ opens :: inner → reached.reads = c.reads)
    (heven : '<' ∉ opens :: inner →
      (opens :: (inner ++ [closes])).count '[' = (opens :: (inner ++ [closes])).count ']') :
    c.Passed (opens :: (inner ++ [closes])) (c.behind close reached) where
  rest := h.behind_rest reached
  offset := h.behind_offset reached
  unread hnot := hunread fun hmem => hnot (by
    rw [← List.cons_append]
    exact List.mem_append_left _ hmem)
  even hnot := heven fun hmem => hnot (by
    rw [← List.cons_append]
    exact List.mem_append_left _ hmem)

end Pair

end Cursor

/-- The error points, in the text of `c`, at what it says. -/
def ExpressionError.PointsFrom (c : Cursor) : ExpressionError → Prop
  | .unmatchedGrouping offset => c.Marks offset ['(', ')']
  | .unmatchedValueBrackets offset => c.Marks offset ['[', ']', '<', '>']
  | .unknownCharacter character offset => c.Marks offset [character]
  | .unexpectedEnd offset => offset = c.ending ∨ c.Marks offset [')', ']', '>']
  | .dereferenceWithoutRegisters offset => c.Marks offset ['[']
  | .divisionByZero offset => c.Marks offset ['/', '%']
  | .nestingTooDeep offset => offset ≤ c.ending
  | .optionNotFound _ | .caveNotFound _ | .symbolNotFound _ | .memoryUnreadable _ _ => True

theorem ExpressionError.PointsFrom.outward {error : ExpressionError} {inner c : Cursor}
    (h : error.PointsFrom inner) (hwithin : inner.Within c) : error.PointsFrom c := by
  obtain ⟨before, behind, hsplit, hoffset, hbehind⟩ := hwithin.split
  have hending : c.ending = inner.ending + Text.utf8Size behind := by
    rw [Cursor.ending, Cursor.ending, hsplit, hoffset, Text.utf8Size_append, Text.utf8Size_append]
    omega
  cases error with
  | unexpectedEnd offset =>
      rcases h with rfl | h
      · rcases hbehind with rfl | ⟨mark, more, rfl, hmark⟩
        · exact .inl hending.symm
        · refine .inr ⟨before ++ inner.rest, mark, more, ?_, hmark, ?_⟩
          · rw [hsplit, List.append_assoc]
          · rw [Cursor.ending, hoffset, Text.utf8Size_append, Nat.add_assoc]
      · exact .inr (h.outward hwithin)
  | nestingTooDeep offset => exact Nat.le_trans h (hending ▸ Nat.le_add_right ..)
  | unmatchedGrouping offset => exact Cursor.Marks.outward h hwithin
  | unmatchedValueBrackets offset => exact Cursor.Marks.outward h hwithin
  | unknownCharacter character offset => exact Cursor.Marks.outward h hwithin
  | dereferenceWithoutRegisters offset => exact Cursor.Marks.outward h hwithin
  | divisionByZero offset => exact Cursor.Marks.outward h hwithin
  | _ => trivial

end CodePatch
