/-
# How deeply a text is nested

Signs, casts and brackets nest: the operand behind a sign or a cast, and whatever stands between
brackets, is read one level further down.  How far down a text goes is told from its characters
here, without reading it.  `beneath` lists the places one level below a place, and `nesting` is the
length of the longest chain of such places, from any place of the text.

The measure takes no notice of what is an operand, so it may come out too high: the minus of `1 - 2`
counts as a sign, and so do brackets within a name.  It never comes out too low, and that is what is
shown of it, by the walk over the evaluator (`ReachesIn`).
-/
import CodePatch.Proofs.Expression.Passage

namespace CodePatch

theorem Cast.length_pos_of_atStart? {text : List Char} {cast : Cast} {length : Nat}
    (h : atStart? text = some (cast, length)) : 0 < length := by
  have hall : ∀ entry ∈ tokens, 0 < entry.1.length := by decide
  rw [atStart?, Option.map_eq_some_iff] at h
  obtain ⟨entry, hfind, heq⟩ := h
  cases heq
  exact hall entry (List.mem_of_find?_eq_some hfind)

namespace Expression

/-- The signs of the unary operators. -/
def signs : List Char :=
  ['!', '~', '-', '+']

/-- The brackets that enclose an expression. -/
def bracketKinds : List (Char × Char) :=
  [('(', ')'), ('[', ']'), ('<', '>')]

/-- The places between the bracket that `text` starts with and the one that closes it. -/
def placesBetween (opens closes : Char) (text : List Char) : List (List Char) :=
  match Cursor.closing? opens closes 0 text with
  | none => []
  | some close => ((text.drop 1).take (close - 1)).tails

/-- The places one level below an operand at the start of `text`, which starts solid. -/
def beneath (text : List Char) : List (List Char) :=
  match Cast.atStart? text with
  | some (_, length) =>
    let behind := (text.drop length).dropWhile Cursor.isSpace
    if behind.head? = some '[' then placesBetween '[' ']' behind else [behind]
  | none =>
    match text.head? with
    | some '(' => placesBetween '(' ')' text
    | some '[' => placesBetween '[' ']' text
    | some '<' => placesBetween '<' '>' text
    | some first => if first ∈ signs then [text.drop 1] else []
    | none => []

/-- The length of the longest chain of places that starts with the text, as far as the fuel goes. -/
def nestingFrom : Nat → List Char → Nat
  | 0, _ => 0
  | fuel + 1, text =>
    let places := beneath (text.dropWhile Cursor.isSpace)
    (places.map fun place => nestingFrom fuel place + 1).max?.getD 0

/-- How deeply `text` is nested at most, at any of its places. -/
def nesting (text : List Char) : Nat :=
  (text.tails.map (nestingFrom text.length)).max?.getD 0

/-- At its start, the text goes down at least so many levels. -/
def ReachesFrom (levels : Nat) (text : List Char) : Prop :=
  ∀ fuel, text.length ≤ fuel → levels ≤ nestingFrom fuel text

/-- At one of these places, a text goes down at least so many levels. -/
def ReachesIn (levels : Nat) (places : List (List Char)) : Prop :=
  ∃ place ∈ places, ReachesFrom levels place

variable {text place : List Char} {levels : Nat}

theorem beneath_of_bracket {opens closes : Char} (hkind : (opens, closes) ∈ bracketKinds)
    (hcast : Cast.atStart? text = none) (hhead : text.head? = some opens) :
    beneath text = placesBetween opens closes text := by
  simp only [bracketKinds, List.mem_cons, List.not_mem_nil, or_false, Prod.mk.injEq] at hkind
  rcases hkind with ⟨rfl, rfl⟩ | ⟨rfl, rfl⟩ | ⟨rfl, rfl⟩ <;> simp only [beneath, hcast, hhead]

theorem beneath_of_sign {sign : Char} (hsign : sign ∈ signs) (hcast : Cast.atStart? text = none)
    (hhead : text.head? = some sign) : beneath text = [text.drop 1] := by
  rw [beneath, hcast, hhead]
  simp only [signs, List.mem_cons, List.not_mem_nil, or_false] at hsign
  rcases hsign with rfl | rfl | rfl | rfl <;> exact if_pos (by decide)


theorem length_lt_of_mem_placesBetween {opens closes : Char}
    (h : place ∈ placesBetween opens closes text) : place.length < text.length := by
  cases text with
  | nil => cases h
  | cons first rest =>
      rw [placesBetween] at h
      split at h
      · cases h
      · have hle := ((List.mem_tails _ _).mp h).length_le
        rw [List.length_take] at hle
        exact Nat.lt_succ_of_le (Nat.le_trans hle (Nat.min_le_right ..))

/-- Every level takes a character at least, so the length of a text is fuel enough. -/
theorem length_lt_of_mem_beneath (h : place ∈ beneath text) : place.length < text.length := by
  rw [beneath] at h
  split at h
  · rename_i cast length hcast
    have hpos := Cast.length_pos_of_atStart? hcast
    have hfits := (Cast.takes_atStart? hcast).fits
    have hbehind : ((text.drop length).dropWhile Cursor.isSpace).length ≤ text.length - length :=
      List.length_drop (i := length) (l := text) ▸ (List.dropWhile_suffix _).length_le
    dsimp only at h
    split at h
    · have hlt := length_lt_of_mem_placesBetween h
      omega
    · rw [List.mem_singleton] at h
      subst h
      omega
  · split at h
    · exact length_lt_of_mem_placesBetween h
    · exact length_lt_of_mem_placesBetween h
    · exact length_lt_of_mem_placesBetween h
    · rename_i first _ _ _ hhead
      split at h
      · rw [List.mem_singleton] at h
        obtain ⟨rest, hrest⟩ := List.head?_eq_some_iff.mp hhead
        rw [h, hrest]
        exact Nat.lt_succ_self _
      · cases h
    · cases h

theorem ReachesIn.succ (h : ReachesIn levels (beneath (text.dropWhile Cursor.isSpace))) :
    ReachesFrom (levels + 1) text := by
  obtain ⟨place, hplace, hreaches⟩ := h
  intro fuel hfuel
  have hshorter := length_lt_of_mem_beneath hplace
  have hblanks : (text.dropWhile Cursor.isSpace).length ≤ text.length :=
    (List.dropWhile_suffix _).length_le
  obtain ⟨fuel, rfl⟩ := Nat.exists_eq_add_one.mpr (by omega : 0 < fuel)
  exact Nat.le_trans (Nat.succ_le_succ (hreaches fuel (by omega)))
    (List.le_max?_getD_of_mem (List.mem_map_of_mem hplace))

theorem ReachesFrom.tails (h : ReachesFrom levels text) : ReachesIn levels text.tails :=
  ⟨text, (List.mem_tails text text).mpr (List.suffix_refl text), h⟩

theorem ReachesIn.of_suffix (h : ReachesIn levels place.tails) (hsuffix : place <:+ text) :
    ReachesIn levels text.tails := by
  obtain ⟨start, hstart, hreaches⟩ := h
  exact ⟨start, (List.mem_tails _ _).mpr (((List.mem_tails _ _).mp hstart).trans hsuffix), hreaches⟩

theorem ReachesIn.le_nesting (h : ReachesIn levels text.tails) : levels ≤ nesting text := by
  obtain ⟨start, hstart, hreaches⟩ := h
  exact Nat.le_trans (hreaches text.length ((List.mem_tails _ _).mp hstart).length_le)
    (List.le_max?_getD_of_mem (List.mem_map_of_mem hstart))

-- A cast takes one level together with the bracket behind it.
example : nesting "2 * (~(u8)[eax] | 3)".toList = 3 := by decide +kernel

end Expression
end CodePatch
