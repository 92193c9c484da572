/-
# Blank characters

Two classes of blank occur in configurations, and they are not the same.
`isBlank` is Unicode's `White_Space` property, the class that names, widths
and numbers are trimmed by.  Code strings and expressions skip smaller,
ASCII-only classes of their own; those live beside the readers that use them.

The table is the property's whole list of ranges, so no character outside it
is ever trimmed.
-/

namespace CodePatch.Text

/-- The ranges of code points with the property `White_Space`. -/
def blankRanges : List (Nat × Nat) :=
  [(0x09, 0x0D), (0x20, 0x20), (0x85, 0x85), (0xA0, 0xA0), (0x1680, 0x1680),
   (0x2000, 0x200A), (0x2028, 0x2029), (0x202F, 0x202F), (0x205F, 0x205F),
   (0x3000, 0x3000)]

/-- Does `c` have the property `White_Space`? -/
def isBlank (c : Char) : Bool :=
  blankRanges.any fun (first, last) => first ≤ c.toNat && c.toNat ≤ last

/-- `cs` without the blanks at its end. -/
def trimEnd (cs : List Char) : List Char :=
  (cs.reverse.dropWhile isBlank).reverse

/-- `cs` without the blanks at either end. -/
def trim (cs : List Char) : List Char :=
  trimEnd (cs.dropWhile isBlank)

/-- `text` without the blanks at either end. -/
def trimmed (text : String) : String :=
  String.ofList (trim text.toList)

end CodePatch.Text
