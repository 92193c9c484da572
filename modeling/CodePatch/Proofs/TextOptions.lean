/-
# Text options

An option that is a text becomes the bytes of the text with a terminator behind them, and the
text can be had back from the bytes, whatever characters are in it
(`text_options_are_read_back`).  A wide text is written in units of sixteen bits, so its
terminator is a whole unit and its length is even; a narrow one is written in UTF-8.

A zero character in a text is written like any other.  So the terminator is the last zero, not
the first one, and it is told by its place.
-/
import Mathlib
import CodePatch.Options
import CodePatch.Proofs.Text.Utf16

namespace CodePatch

theorem wideText_eq (text : String) :
    wideText text = Text.unitBytes (Text.utf16 text) ++ [0, 0] :=
  List.flatMap_append

theorem narrowText_eq (text : String) : narrowText text = text.toUTF8.data.toList ++ [0] := by
  have hbytes : text.toUTF8 = (Text.utf8 text).toByteArray :=
    String.utf8Encode_toList.symm
  rw [narrowText, hbytes, List.toList_data_toByteArray]

theorem optionValue_text {description : Json} {typeName text : String} {type : OptionType}
    (htype : description.field? "type" = some (.string typeName))
    (hname : OptionType.ofName? typeName = some type)
    (hval : description.field? "val" = some (.string text)) :
    optionValue description = type.valueOf (.string text) := by
  simp only [optionValue, htype, hval, hname, Option.bind_some, Json.string?]

/-- A wide text is an even number of bytes that end in a zero unit, and what is before that unit
is the text in little-endian UTF-16.  A narrow one is its UTF-8 form with a zero behind it. -/
theorem text_options_are_read_back (text : String) {description : Json}
    (hval : description.field? "val" = some (.string text)) :
    (∀ typeName ∈ ["ws", "wstring"], description.field? "type" = some (.string typeName) →
      ∃ bytes front, optionValue description = .ok (.text bytes) ∧ Even bytes.length ∧
        2 ≤ bytes.length ∧ bytes = front ++ [0, 0] ∧
        (Text.ofUnitBytes? front).bind Text.ofUtf16? = some text.toList) ∧
    ∀ typeName ∈ ["s", "string"], description.field? "type" = some (.string typeName) →
      optionValue description = .ok (.text (text.toUTF8.data.toList ++ [0])) := by
  constructor
  · intro typeName hmem htype
    have hname : OptionType.ofName? typeName = some .wideText := by
      simp only [List.mem_cons, List.not_mem_nil, or_false] at hmem
      rcases hmem with rfl | rfl <;> rfl
    have hlength : (wideText text).length = 2 * (Text.utf16 text).length + 2 := by
      rw [wideText_eq, List.length_append, Text.length_unitBytes]
      rfl
    refine ⟨wideText text, Text.unitBytes (Text.utf16 text), optionValue_text htype hname hval,
      ⟨(Text.utf16 text).length + 1, by omega⟩, by omega, wideText_eq text, ?_⟩
    rw [Text.ofUnitBytes?_unitBytes, Option.bind_some, Text.ofUtf16?_utf16]
  · intro typeName hmem htype
    have hname : OptionType.ofName? typeName = some .text := by
      simp only [List.mem_cons, List.not_mem_nil, or_false] at hmem
      rcases hmem with rfl | rfl <;> rfl
    rw [optionValue_text htype hname hval, ← narrowText_eq]
    rfl

/-- A text with a zero in it and a character beyond the basic plane. -/
theorem sample_text_options :
    let described (type : String) : Json :=
      .object [("type", .string type), ("val", .string "A\x00😀")]
    (∃ bytes front, optionValue (described "ws") = .ok (.text bytes) ∧ Even bytes.length ∧
      2 ≤ bytes.length ∧ bytes = front ++ [0, 0] ∧
      (Text.ofUnitBytes? front).bind Text.ofUtf16? = some ['A', '\x00', '😀']) ∧
    optionValue (described "string") =
      .ok (.text [0x41, 0x00, 0xF0, 0x9F, 0x98, 0x80, 0x00]) := by
  have hwide := (text_options_are_read_back "A\x00😀"
    (rfl : Json.field? "val" (.object [("type", .string "ws"), ("val", .string "A\x00😀")]) = _)).1
  have hnarrow := (text_options_are_read_back "A\x00😀"
    (rfl : Json.field? "val"
      (.object [("type", .string "string"), ("val", .string "A\x00😀")]) = _)).2
  exact ⟨hwide "ws" (by decide) rfl, hnarrow "string" (by decide) rfl⟩

end CodePatch
