/-
# Negated options

A minus sign in front of an integer option is taken off, what is behind it is read in 128 bits, and
the number is negated in as many.  That is exact but for the least number, which has no counterpart
of its width: its negation overflows.  And the least number can be read there, since what is read
may have a sign of its own: it takes two minus signs, the second one behind the mark in base sixteen
(`SpellsNegatedLeast`).  No other text comes to it, and with one sign or with none the same digits
are out of range and are refused.

Nothing else overflows on the way from a document to its options.  So a configuration is stopped by
such a text, in an option of an integer type, and by nothing else (`Config.ofJson_overflows_iff`);
another option that makes no sense is left out.
-/
import CodePatch.Config
import CodePatch.Proofs.Options

namespace CodePatch

/-! ## The least number -/

theorem Text.SignedNumeral.exists_minus {radix : Nat} {text : List Char} {m : Int}
    (h : SignedNumeral radix text m) (hnegative : m < 0) :
    ∃ digits, text = '-' :: digits ∧ IsNumeral radix digits m.natAbs := by
  cases h with
  | bare h => omega
  | plus h => omega
  | @minus digits n h =>
      have hn : (-(n : Int)).natAbs = n := by omega
      exact ⟨digits, rfl, hn.symm ▸ h⟩

/-- The least described integer behind a minus sign. -/
inductive SpellsNegatedLeast : List Char → Prop where
  | decimal {digits : List Char} (h : Text.IsNumeral 10 digits (2 ^ 127)) :
      SpellsNegatedLeast ('-' :: '-' :: digits)
  | hex {mark : Char} {digits : List Char} (hmark : mark = 'x' ∨ mark = 'X')
      (h : Text.IsNumeral 16 digits (2 ^ 127)) :
      SpellsNegatedLeast ('-' :: '0' :: mark :: '-' :: digits)

theorem SpellsNegatedLeast.trimmed {text : List Char} (h : SpellsNegatedLeast text) :
    Text.Trimmed text := by
  cases h with
  | decimal h =>
      have hfront : Text.Trimmed ['-', '-'] := by decide
      exact hfront.append h.trimmed
  | @hex mark digits hmark h =>
      have hfront : Text.Trimmed ['-', '0', mark, '-'] := by
        rcases hmark with rfl | rfl <;> decide
      exact hfront.append h.trimmed

/-- What is left of such a text is read as the least number, and of no other text. -/
theorem spellsNegatedLeast_iff {rest : List Char} :
    SpellsNegatedLeast ('-' :: rest) ↔ readInteger? rest = some (-2 ^ 127) := by
  have hfits : Text.Fits describedBits (-2 ^ 127) := fits_describedBits_iff.mpr (by omega)
  rw [readInteger?_eq_some_iff, and_iff_left hfits]
  constructor
  · intro h
    cases h with
    | decimal h => exact .decimal (.minus h)
    | hex hmark h => exact .hex hmark (.minus h)
  · intro h
    generalize hm : (-2 ^ 127 : Int) = m at h
    have hnegative : m < 0 := by omega
    have habs : m.natAbs = 2 ^ 127 := by omega
    cases h with
    | decimal h =>
        obtain ⟨digits, rfl, hdigits⟩ := h.exists_minus hnegative
        exact .decimal (habs ▸ hdigits)
    | hex hmark h =>
        obtain ⟨digits, rfl, hdigits⟩ := h.exists_minus hnegative
        exact .hex hmark (habs ▸ hdigits)

/-! ## Negating it -/

theorem not_fits_neg_iff {m : Int} (h : Text.Fits describedBits m) :
    ¬ Text.Fits describedBits (-m) ↔ m = -2 ^ 127 := by
  rw [fits_describedBits_iff] at h ⊢
  omega

theorem negated_of_not_fits {m : Int} (h : Text.Fits describedBits m)
    (hbeyond : ¬ Text.Fits describedBits (-m)) : m = -2 ^ 127 ∧ negated m = .error .negate := by
  have hleast := (not_fits_neg_iff h).mp hbeyond
  subst hleast
  exact ⟨rfl, rfl⟩

/-! ## Values -/

theorem BinaryFloat.Number.truncate_mem {low high : Int} (hlow : low ≤ 0) (hhigh : 0 ≤ high)
    (x : BinaryFloat.Number) : low ≤ x.truncate low high ∧ x.truncate low high ≤ high := by
  have hordered : low ≤ high := Int.le_trans hlow hhigh
  cases x with
  | nan _ => exact ⟨hlow, hhigh⟩
  | infinite negative =>
      cases negative with
      | false => exact ⟨hordered, Int.le_refl high⟩
      | true => exact ⟨Int.le_refl low, hordered⟩
  | finite _ _ _ =>
      simp only [truncate]
      omega

theorem fits_truncate64 (bits : UInt64) :
    Text.Fits describedBits (BinaryFloat.truncate64 describedBits bits) := by
  have hlimit : 1 <<< (describedBits - 1) = 2 ^ 127 := by decide
  rw [fits_describedBits_iff, BinaryFloat.truncate64, hlimit]
  have hbounds := (BinaryFloat.binary64.decode bits.toNat).truncate_mem
    (by decide : -((2 ^ 127 : Nat) : Int) ≤ 0) (by decide : (0 : Int) ≤ ((2 ^ 127 : Nat) : Int) - 1)
  omega

/-- A text whose minus sign is taken off, and `m` is read behind it. -/
def Negates (value : Json) (m : Int) : Prop :=
  ∃ text rest, value = .string text ∧ Text.trim text.toList = '-' :: rest ∧
    readInteger? rest = some m

/-- A text that spells the least described integer behind a minus sign. -/
def NegatesLeast (value : Json) : Prop :=
  ∃ text body, value = .string text ∧ SpellsNegatedLeast body ∧ Text.Padded body text.toList

theorem negatesLeast_iff {value : Json} : NegatesLeast value ↔ Negates value (-2 ^ 127) := by
  constructor
  · rintro ⟨text, body, rfl, hspells, hpadded⟩
    have htrim := hspells.trimmed.trim_of_padded hpadded
    obtain ⟨rest, rfl⟩ : ∃ rest, body = '-' :: rest := by
      cases hspells <;> exact ⟨_, rfl⟩
    exact ⟨text, rest, rfl, htrim, spellsNegatedLeast_iff.mp hspells⟩
  · rintro ⟨text, rest, rfl, htrim, hread⟩
    refine ⟨text, '-' :: rest, rfl, spellsNegatedLeast_iff.mpr hread, ?_⟩
    rw [← htrim]
    exact Text.padded_trim text.toList

namespace Negates
variable {value : Json} {m : Int}

theorem fits (h : Negates value m) : Text.Fits describedBits m := by
  obtain ⟨_, _, _, _, hread⟩ := h
  exact (readInteger?_eq_some_iff.mp hread).2

theorem integerOf_eq (h : Negates value m) :
    integerOf value = (negated m).mapError .overflow := by
  obtain ⟨text, rest, rfl, htrim, hread⟩ := h
  simp only [integerOf, integerOfText, htrim, hread]

end Negates

theorem integerOf_cases (value : Json) :
    (∃ m, Negates value m) ∨
    (∃ n, integerOf value = .ok n ∧
      ((∀ k, value = .number (.integer k) → -2 ^ 63 ≤ k ∧ k < 2 ^ 64) →
        Text.Fits describedBits n)) ∨
    integerOf value = .error (.invalid .notInteger) := by
  cases value with
  | number number =>
      refine Or.inr (Or.inl ?_)
      cases number with
      | integer k =>
          refine ⟨k, rfl, fun hstored => ?_⟩
          obtain ⟨hlow, hhigh⟩ := hstored k rfl
          exact fits_describedBits_iff.mpr (by omega)
      | float bits => exact ⟨_, rfl, fun _ => fits_truncate64 bits⟩
  | bool b =>
      refine Or.inr (Or.inl ?_)
      cases b with
      | false => exact ⟨0, rfl, fun _ => by decide⟩
      | true => exact ⟨1, rfl, fun _ => by decide⟩
  | string text =>
      simp only [integerOf, integerOfText]
      split
      · rename_i rest htrim
        cases hread : readInteger? rest with
        | some m => exact Or.inl ⟨m, text, rest, rfl, htrim, hread⟩
        | none => exact Or.inr (Or.inr rfl)
      · cases hread : readInteger? (Text.trim text.toList) with
        | some n =>
            refine Or.inr (Or.inl ⟨n, rfl, fun _ => ?_⟩)
            exact (readInteger?_eq_some_iff.mp hread).2
        | none => exact Or.inr (Or.inr rfl)
  | null | array _ | object _ => exact Or.inr (Or.inr rfl)

/-- Whatever a value describes has the width, if its number has as many bits as documents keep. -/
theorem fits_integerOf {value : Json} {n : Int} (h : integerOf value = .ok n)
    (hstored : ∀ k, value = .number (.integer k) → -2 ^ 63 ≤ k ∧ k < 2 ^ 64) :
    Text.Fits describedBits n := by
  rcases integerOf_cases value with ⟨m, hm⟩ | ⟨n', hn, hfits⟩ | hnone
  · rw [hm.integerOf_eq] at h
    by_cases hfits : Text.Fits describedBits (-m)
    · rw [negated_of_fits hfits] at h
      cases h
      exact hfits
    · rw [(negated_of_not_fits hm.fits hfits).2] at h
      cases h
  · obtain rfl : n = n' := Except.ok.inj (h.symm.trans hn)
    exact hfits hstored
  · rw [hnone] at h
    cases h

theorem integerOf_overflows_iff {value : Json} {kind : Overflow} :
    integerOf value = .error (.overflow kind) ↔ kind = .negate ∧ NegatesLeast value := by
  rw [negatesLeast_iff]
  constructor
  · intro h
    rcases integerOf_cases value with ⟨m, hm⟩ | ⟨n, hn, -⟩ | hnone
    · rw [hm.integerOf_eq] at h
      by_cases hfits : Text.Fits describedBits (-m)
      · rw [negated_of_fits hfits] at h
        cases h
      · obtain ⟨hleast, hnegated⟩ := negated_of_not_fits hm.fits hfits
        rw [hnegated] at h
        cases h
        exact ⟨rfl, hleast ▸ hm⟩
    · rw [hn] at h
      cases h
    · rw [hnone] at h
      cases h
  · rintro ⟨rfl, h⟩
    rw [h.integerOf_eq]
    rfl

/-! ## Descriptions, blocks and configurations -/

/-- An option of an integer type whose value spells the least described integer behind a minus
sign. -/
def DescribesNegatedLeast (description : Json) : Prop :=
  ∃ typeName t value, description.field? "type" = some (.string typeName) ∧
    OptionType.ofName? typeName = some (.integer t) ∧
    description.field? "val" = some value ∧ NegatesLeast value

theorem error_map_iff {ε α β : Type} {x : Except ε α} {f : α → β} {e : ε} :
    x.map f = .error e ↔ x = .error e := by
  cases x <;> simp [Except.map]

/-- A value is only negated on the way to an integer. -/
theorem valueOf_overflows_iff {type : OptionType} {value : Json} {kind : Overflow} :
    type.valueOf value = .error (.overflow kind) ↔
      (∃ t, type = .integer t) ∧ integerOf value = .error (.overflow kind) := by
  cases type with
  | integer t =>
      have hmap : OptionType.valueOf (.integer t) value = (integerOf value).map (.ofInt t) := rfl
      rw [hmap, error_map_iff]
      exact (and_iff_right ⟨t, rfl⟩).symm
  | single | double =>
      simp only [OptionType.valueOf]
      cases doubleOf? value <;> simp
  | text | wideText =>
      simp only [OptionType.valueOf]
      cases value.string? <;> simp

theorem optionValue_overflows_iff {description : Json} {kind : Overflow} :
    optionValue description = .error (.overflow kind) ↔
      kind = .negate ∧ DescribesNegatedLeast description := by
  constructor
  · intro h
    unfold optionValue at h
    split at h
    · cases h
    rename_i typeName htype
    split at h
    · cases h
    rename_i type hname
    split at h
    · cases h
    rename_i value hvalue
    obtain ⟨⟨t, rfl⟩, hoverflow⟩ := valueOf_overflows_iff.mp h
    obtain ⟨rfl, hleast⟩ := integerOf_overflows_iff.mp hoverflow
    obtain ⟨type, htext, hstring⟩ := Option.bind_eq_some_iff.mp htype
    cases type with
    | string text =>
        cases hstring
        exact ⟨rfl, typeName, t, value, htext, hname, hvalue, hleast⟩
    | null | bool _ | number _ | array _ | object _ => cases hstring
  · rintro ⟨rfl, typeName, t, value, htype, hname, hvalue, hleast⟩
    simp only [optionValue, htype, hvalue, hname, Option.bind_some, Json.string?]
    exact valueOf_overflows_iff.mpr ⟨⟨t, rfl⟩, integerOf_overflows_iff.mpr ⟨rfl, hleast⟩⟩

theorem Options.addBlock_overflows_iff {o : Options} {entries : List (String × Json)}
    {kind : Overflow} :
    o.addBlock entries = .error kind ↔
      kind = .negate ∧ ∃ entry ∈ entries, DescribesNegatedLeast entry.2 := by
  induction entries generalizing o with
  | nil => simp [addBlock]
  | cons entry rest ih =>
      obtain ⟨name, description⟩ := entry
      have hfirst := @optionValue_overflows_iff description
      -- an option that does not overflow leaves the answer to those behind it
      have hbehind (o' : Options) (f : Nat × Options × Journal → Nat × Options × Journal)
          (hnot : ∀ kind, optionValue description ≠ .error (.overflow kind)) :
          (o'.addBlock rest).map f = .error kind ↔
            kind = .negate ∧ ∃ entry ∈ (name, description) :: rest,
              DescribesNegatedLeast entry.2 := by
        have hleast : ¬ DescribesNegatedLeast description := fun h =>
          hnot .negate (hfirst.mpr ⟨rfl, h⟩)
        rw [error_map_iff, ih]
        simp [hleast]
      unfold addBlock
      cases hvalue : optionValue description with
      | ok value => exact hbehind _ _ fun kind h => nomatch hvalue.symm.trans h
      | error failure =>
          cases failure with
          | invalid problem => exact hbehind _ _ fun kind h => nomatch hvalue.symm.trans h
          | overflow first =>
              obtain ⟨rfl, hleast⟩ := hfirst.mp hvalue
              constructor
              · intro h
                cases h
                exact ⟨rfl, _, List.mem_cons_self, hleast⟩
              · rintro ⟨rfl, -⟩
                rfl

theorem Config.ofJson_overflows_iff {root : Json} {kind : Overflow} :
    (∃ said, ofJson root = (.error (.overflow kind), said)) ↔
      kind = .negate ∧ ∃ entries, root.field? "options" = some (.object entries) ∧
        ∃ entry ∈ entries, DescribesNegatedLeast entry.2 := by
  have hblocks : ofBlocks root = .error kind ↔
      kind = .negate ∧ ∃ entry ∈ (block root "options").1, DescribesNegatedLeast entry.2 := by
    rw [← @Options.addBlock_overflows_iff {}, ofBlocks, error_map_iff]
    exact error_map_iff
  have hjson : (∃ said, ofJson root = (.error (.overflow kind), said)) ↔
      (∃ fields, root = .object fields) ∧ ofBlocks root = .error kind := by
    cases root with
    | object fields =>
        rw [ofJson]
        rcases ofBlocks (.object fields) with first | ⟨config, said⟩ <;> simp
    | null | bool _ | number _ | string _ | array _ => simp [ofJson]
  rw [hjson, hblocks]
  constructor
  · rintro ⟨-, rfl, entry, hentry, hleast⟩
    unfold block at hentry
    split at hentry
    · cases hentry
    · rename_i entries hfield
      exact ⟨rfl, entries, hfield, entry, hentry, hleast⟩
    · cases hentry
  · rintro ⟨rfl, entries, hfield, entry, hentry, hleast⟩
    have hobject : ∃ fields, root = .object fields := by
      cases root with
      | object fields => exact ⟨fields, rfl⟩
      | null | bool _ | number _ | string _ | array _ => cases hfield
    refine ⟨hobject, rfl, entry, ?_, hleast⟩
    rw [block, hfield]
    exact hentry

/-- A negation on the way from a value to an integer is exact but for one number, which is spelled
with two signs: that one overflows.  Nothing else does, so a configuration is read to its end unless
an option of an integer type has such a text. -/
theorem negation_overflows_only_for_the_least (value description root : Json)
    (kind : Overflow) :
    (∀ m, Negates value m → Text.Fits describedBits m ∧
      (Text.Fits describedBits (-m) → integerOf value = .ok (-m)) ∧
      (¬ Text.Fits describedBits (-m) →
        m = -2 ^ 127 ∧ integerOf value = .error (.overflow .negate))) ∧
    ((∃ m, Negates value m ∧ ¬ Text.Fits describedBits (-m)) ↔ NegatesLeast value) ∧
    (integerOf value = .error (.overflow kind) ↔ kind = .negate ∧ NegatesLeast value) ∧
    ((∀ k, value = .number (.integer k) → -2 ^ 63 ≤ k ∧ k < 2 ^ 64) →
      ∀ n, integerOf value = .ok n → Text.Fits describedBits n) ∧
    (optionValue description = .error (.overflow kind) ↔
      kind = .negate ∧ DescribesNegatedLeast description) ∧
    ((∃ said, Config.ofJson root = (.error (.overflow kind), said)) ↔
      kind = .negate ∧ ∃ entries, root.field? "options" = some (.object entries) ∧
        ∃ entry ∈ entries, DescribesNegatedLeast entry.2) := by
  refine ⟨fun m h => ⟨h.fits, ?_, ?_⟩, ?_, integerOf_overflows_iff,
    fun hstored n hn => ?_, optionValue_overflows_iff, Config.ofJson_overflows_iff⟩
  · intro hfits
    rw [h.integerOf_eq, negated_of_fits hfits]
    rfl
  · intro hbeyond
    obtain ⟨hleast, hnegated⟩ := negated_of_not_fits h.fits hbeyond
    refine ⟨hleast, ?_⟩
    rw [h.integerOf_eq, hnegated]
    rfl
  · rw [negatesLeast_iff]
    constructor
    · rintro ⟨m, h, hbeyond⟩
      have hleast := (not_fits_neg_iff h.fits).mp hbeyond
      rwa [hleast] at h
    · intro h
      exact ⟨_, h, (not_fits_neg_iff h.fits).mpr rfl⟩
  · exact fits_integerOf hn hstored

/-- A number behind two signs, and the least one, both in base sixteen.  A configuration with both
is stopped. -/
theorem sample_negation :
    let value := Json.string " -0x-1F"
    let least := Json.string "-0X-80000000000000000000000000000000"
    let described (value : Json) := Json.object [("type", .string "i8"), ("val", value)]
    integerOf value = .ok 31 ∧ optionValue (described value) = .ok (.integer .i8 31) ∧
      (∃ m, Negates least m ∧ ¬ Text.Fits describedBits (-m)) ∧
      ∃ said, Config.ofJson (.object [("options",
        .object [("a", described value), ("b", described least)])]) =
        (.error (.overflow .negate), said) := by
  have hnegates : Negates (.string " -0x-1F") (-31) := ⟨_, _, rfl, rfl, rfl⟩
  have hspells : SpellsNegatedLeast ('-' :: '0' :: 'X' :: '-' :: Text.hexDigits false (2 ^ 127)) :=
    .hex (Or.inr rfl) (Text.isNumeral_hexDigits false _)
  have hleast : NegatesLeast (.string "-0X-80000000000000000000000000000000") :=
    ⟨_, _, rfl, hspells, [], [], by decide +kernel, nofun, nofun⟩
  let config := Json.object [("options",
    .object [("a", .object [("type", .string "i8"), ("val", .string " -0x-1F")]),
      ("b", .object [("type", .string "i8"),
        ("val", .string "-0X-80000000000000000000000000000000")])])]
  have hexact := negation_overflows_only_for_the_least (.string " -0x-1F") .null .null .negate
  have hstops := negation_overflows_only_for_the_least
    (.string "-0X-80000000000000000000000000000000") .null config .negate
  refine ⟨(hexact.1 _ hnegates).2.1 (by decide), rfl, hstops.2.1.mpr hleast,
    hstops.2.2.2.2.2.mpr ⟨rfl, _, rfl, ?_⟩⟩
  exact ⟨_, List.mem_cons_of_mem _ List.mem_cons_self, "i8", .i8, _, rfl, rfl, rfl, hleast⟩

/-- The least number behind two signs is read, and its negation overflows.  With one sign or none,
the same digits are refused. -/
theorem negated_least_overflows :
    let value := Json.string "--170141183460469231731687303715884105728"
    let described (value : Json) :=
      optionValue (.object [("type", .string "i64"), ("val", value)])
    Negates value (-2 ^ 127) ∧ ¬ Text.Fits describedBits (- -2 ^ 127) ∧
      described value = .error (.overflow .negate) ∧
      described (.string "-170141183460469231731687303715884105728") =
        .error (.invalid .notInteger) ∧
      described (.string "170141183460469231731687303715884105728") =
        .error (.invalid .notInteger) :=
  ⟨⟨_, _, rfl, rfl, rfl⟩, by decide, rfl, rfl, rfl⟩

end CodePatch
