/-
# Text as bytes

Places in a text are counted in the bytes of its UTF-8 form.  An ASCII character
is one byte there, the byte of its own number, and no byte of another character
is the number of an ASCII character (`le_of_mem_encode`).  So whoever looks for
ASCII characters may look at the bytes one by one, each taken for a character of
its own: the text is `blurred` then, but every search for an ASCII token, and
every run of ASCII characters, comes out as it does in the text.
-/
import CodePatch.Text.Ascii
import CodePatch.Text.Encoding

namespace CodePatch.Text

/-! ## Sizes -/

theorem utf8Size_cons (c : Char) (cs : List Char) :
    utf8Size (c :: cs) = c.utf8Size + utf8Size cs := rfl

theorem utf8Size_append (cs ds : List Char) :
    utf8Size (cs ++ ds) = utf8Size cs + utf8Size ds := by
  induction cs with
  | nil => exact (Nat.zero_add _).symm
  | cons c cs ih => rw [List.cons_append, utf8Size_cons, ih, utf8Size_cons, Nat.add_assoc]

/-- A character of ASCII. -/
def IsAscii (c : Char) : Prop :=
  c.toNat < 128

instance (c : Char) : Decidable (IsAscii c) :=
  inferInstanceAs (Decidable (c.toNat < 128))

theorem utf8Size_of_isAscii {c : Char} (h : IsAscii c) : c.utf8Size = 1 :=
  Char.utf8Size_eq_one_iff.mpr (UInt32.le_iff_toNat_le.mpr (Nat.le_of_lt_succ h))

theorem utf8Size_eq_length {cs : List Char} (h : ∀ c ∈ cs, IsAscii c) :
    utf8Size cs = cs.length := by
  induction cs with
  | nil => rfl
  | cons c cs ih =>
      rw [utf8Size_cons, utf8Size_of_isAscii (h c List.mem_cons_self),
        ih fun d hd => h d (List.mem_cons_of_mem _ hd), List.length_cons, Nat.add_comm]

/-! ## The bytes of a text -/

/-- The UTF-8 form of a list of characters. -/
def encoded (cs : List Char) : List UInt8 :=
  cs.flatMap String.utf8EncodeChar

theorem encoded_cons (c : Char) (cs : List Char) :
    encoded (c :: cs) = String.utf8EncodeChar c ++ encoded cs :=
  List.flatMap_cons

theorem encoded_append (cs ds : List Char) : encoded (cs ++ ds) = encoded cs ++ encoded ds :=
  List.flatMap_append

theorem length_encoded (cs : List Char) : (encoded cs).length = utf8Size cs := by
  induction cs with
  | nil => rfl
  | cons c cs ih =>
      rw [encoded_cons, List.length_append, String.length_utf8EncodeChar, ih, utf8Size_cons]

/-- The characters that `bytes` are the UTF-8 form of. -/
def decoded? (bytes : List UInt8) : Option (List Char) :=
  bytes.toByteArray.utf8Decode?.map Array.toList

theorem decoded?_encoded (cs : List Char) : decoded? (encoded cs) = some cs := by
  have hdecode : (encoded cs).toByteArray.utf8Decode? = some cs.toArray :=
    List.utf8Decode?_utf8Encode
  rw [decoded?, hdecode]
  rfl

theorem head?_encoded (c : Char) (cs : List Char) :
    ∃ b, (encoded (c :: cs)).head? = some b ∧ b.IsUTF8FirstByte := by
  have hpos : 0 < (String.utf8EncodeChar c).length := by
    rw [String.length_utf8EncodeChar]
    exact c.utf8Size_pos
  refine ⟨(String.utf8EncodeChar c)[0], ?_, UInt8.isUTF8FirstByte_getElem_zero_utf8EncodeChar⟩
  rw [encoded_cons, List.head?_eq_getElem?, List.getElem?_append_left hpos]
  exact List.getElem?_eq_getElem hpos

theorem le_of_mem_encode {c : Char} (h : ¬ IsAscii c) {b : UInt8}
    (hb : b ∈ String.utf8EncodeChar c) : 128 ≤ b.toNat := by
  have hmarked : ∀ low mark : Nat, 128 ≤ mark → mark + low < 256 →
      128 ≤ (UInt8.ofNat (low + mark)).toNat := by
    intro low mark hmark hfits
    rw [UInt8.toNat_ofNat']
    omega
  have hbeyond : ¬ c.val.toNat ≤ 0x7f := fun hle => h (Nat.lt_succ_of_le hle)
  unfold String.utf8EncodeChar at hb
  simp only [if_neg hbeyond] at hb
  split at hb
  · simp only [List.mem_cons, List.not_mem_nil, or_false] at hb
    rcases hb with rfl | rfl <;> exact hmarked _ _ (by decide) (by omega)
  · split at hb
    · simp only [List.mem_cons, List.not_mem_nil, or_false] at hb
      rcases hb with rfl | rfl | rfl <;> exact hmarked _ _ (by decide) (by omega)
    · simp only [List.mem_cons, List.not_mem_nil, or_false] at hb
      rcases hb with rfl | rfl | rfl | rfl <;> exact hmarked _ _ (by decide) (by omega)

/-! ## Bytes taken for characters -/

/-- The character whose number `b` is. -/
def asChar (b : UInt8) : Char :=
  Char.ofNat b.toNat

/-- The byte whose number is that of `c`. -/
def asByte (c : Char) : UInt8 :=
  UInt8.ofNat c.toNat

def asChars (bytes : List UInt8) : List Char :=
  bytes.map asChar

theorem toNat_asChar (b : UInt8) : (asChar b).toNat = b.toNat := by
  have hvalid : b.toNat.isValidChar := Or.inl (Nat.lt_trans b.toNat_lt (by decide))
  rw [asChar, Char.ofNat, dif_pos hvalid]
  rfl

theorem asChar_asByte {c : Char} (h : IsAscii c) : asChar (asByte c) = c := by
  have hnat : (asByte c).toNat = c.toNat := by
    rw [asByte, UInt8.toNat_ofNat']
    exact Nat.mod_eq_of_lt (Nat.lt_trans h (by decide))
  rw [asChar, hnat, Char.ofNat_toNat]

theorem encode_of_isAscii {c : Char} (h : IsAscii c) : String.utf8EncodeChar c = [asByte c] := by
  have hle : c.val.toNat ≤ 0x7f := Nat.le_of_lt_succ h
  unfold String.utf8EncodeChar
  exact if_pos hle

/-- The bytes of `text`, each taken for a character. -/
def blurred (text : List Char) : List Char :=
  asChars (encoded text)

theorem blurred_cons (c : Char) (cs : List Char) :
    blurred (c :: cs) = asChars (String.utf8EncodeChar c) ++ blurred cs := by
  rw [blurred, encoded_cons, asChars, List.map_append]
  rfl

theorem blurred_cons_of_isAscii {c : Char} (h : IsAscii c) (cs : List Char) :
    blurred (c :: cs) = c :: blurred cs := by
  rw [blurred_cons, encode_of_isAscii h, asChars, List.map_singleton, asChar_asByte h]
  rfl

theorem not_isAscii_of_mem_asChars {c d : Char} (h : ¬ IsAscii c)
    (hd : d ∈ asChars (String.utf8EncodeChar c)) : ¬ IsAscii d := by
  obtain ⟨b, hb, rfl⟩ := List.mem_map.mp hd
  unfold IsAscii
  rw [toNat_asChar]
  exact Nat.not_lt.mpr (le_of_mem_encode h hb)

/-- A character beyond ASCII blurs into characters beyond ASCII. -/
theorem blurred_cons_of_not_isAscii {c : Char} (h : ¬ IsAscii c) (cs : List Char) :
    ∃ d ds, blurred (c :: cs) = d :: (ds ++ blurred cs) ∧ ¬ IsAscii d ∧
      (∀ e ∈ ds, ¬ IsAscii e) ∧ ds.length + 1 = c.utf8Size := by
  have hlength : (asChars (String.utf8EncodeChar c)).length = c.utf8Size := by
    rw [asChars, List.length_map, String.length_utf8EncodeChar]
  rcases hblur : asChars (String.utf8EncodeChar c) with _ | ⟨d, ds⟩
  · have hpos := c.utf8Size_pos
    rw [← hlength, hblur] at hpos
    cases hpos
  · have hmem : ∀ e ∈ d :: ds, ¬ IsAscii e := fun e he =>
      not_isAscii_of_mem_asChars h (hblur ▸ he)
    refine ⟨d, ds, by rw [blurred_cons, hblur]; rfl, hmem d List.mem_cons_self,
      fun e he => hmem e (List.mem_cons_of_mem _ he), ?_⟩
    rw [← hlength, hblur]
    rfl

/-! ## Searches in blurred text -/

theorem isPrefixOf_blurred {token : List Char} (h : ∀ t ∈ token, IsAscii t) (text : List Char) :
    token.isPrefixOf (blurred text) = token.isPrefixOf text := by
  induction token generalizing text with
  | nil => rw [List.isPrefixOf_nil_left, List.isPrefixOf_nil_left]
  | cons t ts ih =>
      have ht : IsAscii t := h t List.mem_cons_self
      cases text with
      | nil => rfl
      | cons c cs =>
          by_cases hc : IsAscii c
          · rw [blurred_cons_of_isAscii hc, List.isPrefixOf_cons_cons, List.isPrefixOf_cons_cons,
              ih fun d hd => h d (List.mem_cons_of_mem _ hd)]
          · obtain ⟨d, ds, hblur, hd, -⟩ := blurred_cons_of_not_isAscii hc cs
            have hne : (t == d) = false := beq_eq_false_iff_ne.mpr fun heq => hd (heq ▸ ht)
            have hne' : (t == c) = false := beq_eq_false_iff_ne.mpr fun heq => hc (heq ▸ ht)
            rw [hblur, List.isPrefixOf_cons_cons, List.isPrefixOf_cons_cons, hne, hne',
              Bool.false_and, Bool.false_and]

/-- Only the capitals of ASCII have another letter in lower case. -/
theorem toLower_cases (c : Char) :
    c.toLower = c ∨ 65 ≤ c.toNat ∧ c.toNat ≤ 90 ∧ c.toLower.toNat = c.toNat + 32 := by
  unfold Char.toLower
  split
  · rename_i h
    have hge : 65 ≤ c.val.toNat := UInt32.le_iff_toNat_le.mp h.1
    have hle : c.val.toNat ≤ 90 := UInt32.le_iff_toNat_le.mp h.2
    have hshift : ('a'.val - 'A'.val).toNat = 32 := rfl
    refine .inr ⟨hge, hle, ?_⟩
    show (c.val + ('a'.val - 'A'.val)).toNat = c.val.toNat + 32
    rw [UInt32.toNat_add, hshift]
    omega
  · exact .inl rfl

theorem isAscii_toLower_iff (c : Char) : IsAscii c.toLower ↔ IsAscii c := by
  rcases toLower_cases c with h | ⟨_, hle, hlower⟩
  · rw [h]
  · unfold IsAscii
    omega

theorem sameLetters_cons (a b : Char) (as bs : List Char) :
    sameLetters (a :: as) (b :: bs) = (a.toLower == b.toLower && sameLetters as bs) := rfl

theorem startsLike_blurred {token : List Char} (h : ∀ t ∈ token, IsAscii t) (text : List Char) :
    startsLike token (blurred text) = startsLike token text := by
  unfold startsLike
  induction token generalizing text with
  | nil => rfl
  | cons t ts ih =>
      have ht : IsAscii t := h t List.mem_cons_self
      cases text with
      | nil => rfl
      | cons c cs =>
          by_cases hc : IsAscii c
          · rw [blurred_cons_of_isAscii hc, List.length_cons, List.take_succ_cons,
              List.take_succ_cons, sameLetters_cons, sameLetters_cons,
              ih fun d hd => h d (List.mem_cons_of_mem _ hd)]
          · obtain ⟨d, ds, hblur, hd, -⟩ := blurred_cons_of_not_isAscii hc cs
            have hne : ∀ e, ¬ IsAscii e → (e.toLower == t.toLower) = false := fun e he =>
              beq_eq_false_iff_ne.mpr fun heq =>
                he ((isAscii_toLower_iff e).mp (heq ▸ (isAscii_toLower_iff t).mpr ht))
            rw [hblur, List.length_cons, List.take_succ_cons, List.take_succ_cons,
              sameLetters_cons, sameLetters_cons, hne d hd, hne c hc, Bool.false_and,
              Bool.false_and]

theorem takeWhile_blurred {p : Char → Bool} (h : ∀ c, p c = true → IsAscii c)
    (text : List Char) : (blurred text).takeWhile p = text.takeWhile p := by
  induction text with
  | nil => rfl
  | cons c cs ih =>
      by_cases hc : IsAscii c
      · rw [blurred_cons_of_isAscii hc, List.takeWhile_cons, List.takeWhile_cons, ih]
      · obtain ⟨d, ds, hblur, hd, -⟩ := blurred_cons_of_not_isAscii hc cs
        rw [hblur, List.takeWhile_cons_of_neg fun hp => hd (h d hp),
          List.takeWhile_cons_of_neg fun hp => hc (h c hp)]

theorem any_head?_blurred {p : Char → Bool} (h : ∀ c, p c = true → IsAscii c) (text : List Char) :
    (blurred text).head?.any p = text.head?.any p := by
  cases text with
  | nil => rfl
  | cons c cs =>
      by_cases hc : IsAscii c
      · rw [blurred_cons_of_isAscii hc]
        rfl
      · obtain ⟨d, ds, hblur, hd, -⟩ := blurred_cons_of_not_isAscii hc cs
        have hp : p d = false := Bool.eq_false_iff.mpr fun hp => hd (h d hp)
        have hp' : p c = false := Bool.eq_false_iff.mpr fun hp => hc (h c hp)
        rw [hblur, List.head?_cons, List.head?_cons, Option.any_some, Option.any_some, hp, hp']

theorem drop_blurred {n : Nat} {text : List Char} (h : ∀ c ∈ text.take n, IsAscii c) :
    (blurred text).drop n = blurred (text.drop n) := by
  induction n generalizing text with
  | zero => rfl
  | succ n ih =>
      cases text with
      | nil => rfl
      | cons c cs =>
          rw [List.take_succ_cons] at h
          rw [blurred_cons_of_isAscii (h c List.mem_cons_self), List.drop_succ_cons,
            List.drop_succ_cons, ih fun d hd => h d (List.mem_cons_of_mem _ hd)]

end CodePatch.Text
