/-
# Encoded text

The bytes and units that a text becomes in memory: its encoding in UTF-8 and
in little-endian UTF-16, where a character beyond the basic plane takes two
units.  Offsets into a text are counted in the bytes of its UTF-8 form, so the
size of a run of characters lives here too.
-/

namespace CodePatch.Text

/-- The UTF-8 form of `text`. -/
def utf8 (text : String) : List UInt8 :=
  text.toList.flatMap String.utf8EncodeChar

/-- The number of bytes of the UTF-8 form of `cs`. -/
def utf8Size (cs : List Char) : Nat :=
  (cs.map Char.utf8Size).foldr (· + ·) 0

/-- The UTF-16 units of one character: itself in the basic plane, else the ten
high bits of its offset from the plane's end and then the ten low bits. -/
def utf16Units (c : Char) : List UInt16 :=
  if c.toNat < 0x10000 then [UInt16.ofNat c.toNat]
  else
    let beyond := c.toNat - 0x10000
    [UInt16.ofNat (0xD800 + beyond / 0x400), UInt16.ofNat (0xDC00 + beyond % 0x400)]

/-- The UTF-16 units of `text`. -/
def utf16 (text : String) : List UInt16 :=
  text.toList.flatMap utf16Units

end CodePatch.Text
