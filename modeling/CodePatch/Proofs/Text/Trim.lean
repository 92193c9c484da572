/-
# Trimmed texts

Trimming takes the blanks off both ends of a text and nothing else (`padded_trim`).
What is left is trimmed (`trimmed_trim`), and a trimmed text stays as it is
(`Trimmed.trim_eq`) and comes back from between any blanks (`Trimmed.trim_of_padded`).
-/
import Mathlib
import CodePatch.Text.Ascii
import CodePatch.Text.Blank

namespace CodePatch.Text

/-- There is no blank at either end. -/
structure Trimmed (text : List Char) : Prop where
  front : ∀ c ∈ text.head?, isBlank c = false
  back : ∀ c ∈ text.getLast?, isBlank c = false

-- The instances are named: those that are found otherwise try all characters there are.
instance (text : List Char) : Decidable (Trimmed text) :=
  have : Decidable (∀ c ∈ text.head?, isBlank c = false) := Option.decidableForallMem _
  have : Decidable (∀ c ∈ text.getLast?, isBlank c = false) := Option.decidableForallMem _
  decidable_of_iff ((∀ c ∈ text.head?, isBlank c = false) ∧ ∀ c ∈ text.getLast?, isBlank c = false)
    ⟨fun h => ⟨h.1, h.2⟩, fun h => ⟨h.front, h.back⟩⟩

theorem head?_dropWhile_isBlank (text : List Char) :
    ∀ c ∈ (text.dropWhile isBlank).head?, isBlank c = false := by
  intro c hc
  have hhead := List.head?_dropWhile_not isBlank text
  rw [hc] at hhead
  exact hhead

theorem dropWhile_eq_self {text : List Char} (h : ∀ c ∈ text.head?, isBlank c = false) :
    text.dropWhile isBlank = text := by
  cases text with
  | nil => rfl
  | cons c rest => exact List.dropWhile_cons_of_neg (Bool.not_eq_true _ ▸ h c rfl)

/-! ## The end -/

theorem isPrefix_trimEnd (text : List Char) : trimEnd text <+: text := by
  have hsuffix := List.dropWhile_suffix isBlank (l := text.reverse)
  rwa [← List.reverse_prefix, List.reverse_reverse] at hsuffix

theorem getLast?_trimEnd (text : List Char) :
    ∀ c ∈ (trimEnd text).getLast?, isBlank c = false := by
  rw [trimEnd, List.getLast?_reverse]
  exact head?_dropWhile_isBlank text.reverse

theorem trimEnd_eq_self {text : List Char} (h : ∀ c ∈ text.getLast?, isBlank c = false) :
    trimEnd text = text := by
  rw [← List.head?_reverse] at h
  rw [trimEnd, dropWhile_eq_self h, List.reverse_reverse]

theorem exists_trimEnd_append (text : List Char) :
    ∃ back, text = trimEnd text ++ back ∧ ∀ c ∈ back, isBlank c = true := by
  refine ⟨(text.reverse.takeWhile isBlank).reverse, ?_,
    fun c hc => List.mem_takeWhile_imp (List.mem_reverse.mp hc)⟩
  rw [trimEnd, ← List.reverse_append, List.takeWhile_append_dropWhile, List.reverse_reverse]

theorem getElem?_trimEnd (text : List Char) (k : Nat) :
    (trimEnd text)[k]? = none ∨ (trimEnd text)[k]? = text[k]? := by
  rcases Nat.lt_or_ge k (trimEnd text).length with hin | hout
  · obtain ⟨back, htext, -⟩ := exists_trimEnd_append text
    exact Or.inr ((congrArg (·[k]?) htext).trans (List.getElem?_append_left hin)).symm
  · exact Or.inl (List.getElem?_eq_none hout)

theorem getElem?_trimEnd_of_not_blank {text : List Char} {k : Nat} {c : Char}
    (h : text[k]? = some c) (hc : isBlank c = false) : (trimEnd text)[k]? = some c := by
  obtain ⟨back, htext, hblank⟩ := exists_trimEnd_append text
  rcases Nat.lt_or_ge k (trimEnd text).length with hin | hout
  · rwa [htext, List.getElem?_append_left hin] at h
  · rw [htext, List.getElem?_append_right hout] at h
    have hback := hblank c (List.mem_of_getElem? h)
    rw [hc] at hback
    cases hback

/-! ## Both ends -/

theorem Trimmed.trim_eq {text : List Char} (h : Trimmed text) : trim text = text := by
  rw [trim, dropWhile_eq_self h.front, trimEnd_eq_self h.back]

theorem trimmed_trim (text : List Char) : Trimmed (trim text) := by
  refine ⟨fun c hc => ?_, getLast?_trimEnd _⟩
  obtain ⟨behind, hbehind⟩ := isPrefix_trimEnd (text.dropWhile isBlank)
  refine head?_dropWhile_isBlank text c ?_
  obtain ⟨rest, hrest⟩ := List.head?_eq_some_iff.mp hc
  rw [← hbehind, ← trim, hrest]
  rfl

/-- `text` is `body` with blanks around it, if any. -/
def Padded (body text : List Char) : Prop :=
  ∃ front back, text = front ++ body ++ back ∧ (∀ c ∈ front, isBlank c = true) ∧
    ∀ c ∈ back, isBlank c = true

theorem padded_trim (text : List Char) : Padded (trim text) text := by
  obtain ⟨back, htext, hback⟩ := exists_trimEnd_append (text.dropWhile isBlank)
  refine ⟨text.takeWhile isBlank, back, ?_, fun c hc => List.mem_takeWhile_imp hc, hback⟩
  rw [trim, List.append_assoc, ← htext, List.takeWhile_append_dropWhile]

theorem trimEnd_append_blanks {text back : List Char} (h : ∀ c ∈ back, isBlank c = true) :
    trimEnd (text ++ back) = trimEnd text := by
  have hback : ∀ c ∈ back.reverse, isBlank c = true := fun c hc => h c (List.mem_reverse.mp hc)
  rw [trimEnd, List.reverse_append, List.dropWhile_append_of_pos hback, ← trimEnd]

theorem Trimmed.trim_of_padded {body text : List Char} (h : Trimmed body)
    (hpadded : Padded body text) : trim text = body := by
  obtain ⟨front, back, rfl, hfront, hback⟩ := hpadded
  rw [trim, List.append_assoc, List.dropWhile_append_of_pos hfront]
  rcases body with _ | ⟨c, rest⟩
  · rw [List.nil_append, List.dropWhile_eq_nil_iff.mpr hback]
    rfl
  · have hhead : (c :: rest ++ back).dropWhile isBlank = c :: rest ++ back :=
      dropWhile_eq_self fun d hd => h.front d hd
    rw [hhead, trimEnd_append_blanks hback, trimEnd_eq_self h.back]

theorem mem_of_mem_trim {text : List Char} {c : Char} (h : c ∈ trim text) : c ∈ text := by
  obtain ⟨front, back, htext, -, -⟩ := padded_trim text
  rw [htext]
  exact List.mem_append_left back (List.mem_append_right front h)

theorem isBlank_of_trim_eq_nil {text : List Char} (h : trim text = []) :
    ∀ c ∈ text, isBlank c = true := by
  obtain ⟨front, back, htext, hfront, hback⟩ := padded_trim text
  rw [h, List.append_nil] at htext
  intro c hc
  rw [htext] at hc
  exact (List.mem_append.mp hc).elim (hfront c) (hback c)

theorem Trimmed.front_eq_nil {before behind : List Char} (h : Trimmed (before ++ behind))
    (htrim : trim before = []) : before = [] := by
  cases before with
  | nil => rfl
  | cons first rest =>
      have hblank := isBlank_of_trim_eq_nil htrim first List.mem_cons_self
      rw [h.front first rfl] at hblank
      cases hblank

theorem Trimmed.back_eq_nil {before behind : List Char} (h : Trimmed (before ++ behind))
    (htrim : trim behind = []) : behind = [] := by
  rcases List.eq_nil_or_concat behind with hnil | ⟨rest, last, rfl⟩
  · exact hnil
  · have hblank := isBlank_of_trim_eq_nil htrim last (by simp)
    rw [h.back last (by simp)] at hblank
    cases hblank

theorem isPrefix_trim {text : List Char} (h : ∀ c ∈ text.head?, isBlank c = false) :
    trim text <+: text := by
  rw [trim, dropWhile_eq_self h]
  exact isPrefix_trimEnd text

theorem Trimmed.append {text more : List Char} (h : Trimmed text) (h' : Trimmed more) :
    Trimmed (text ++ more) := by
  refine ⟨fun c hc => ?_, fun c hc => ?_⟩
  · rw [List.head?_append] at hc
    rcases Option.or_eq_some_iff.mp hc with hc | ⟨-, hc⟩
    · exact h.front c hc
    · exact h'.front c hc
  · rw [List.getLast?_append] at hc
    rcases Option.or_eq_some_iff.mp hc with hc | ⟨-, hc⟩
    · exact h'.back c hc
    · exact h.back c hc

theorem trimmed_of_forall {text : List Char} (h : ∀ c ∈ text, isBlank c = false) : Trimmed text :=
  ⟨fun c hc => h c (List.mem_of_head? hc), fun c hc => h c (List.mem_of_getLast? hc)⟩

/-! ## Marks in front -/

theorem after?_eq_none_iff {token text : List Char} :
    after? token text = none ↔ ¬ token <+: text := by
  rw [List.prefix_iff_eq_take, after?]
  constructor
  · intro h htake
    rw [if_pos htake.symm] at h
    cases h
  · intro h
    exact if_neg fun htake => h htake.symm

theorem after?_append (token rest : List Char) : after? token (token ++ rest) = some rest := by
  rw [after?, List.take_left, if_pos rfl, List.drop_left]

end CodePatch.Text
