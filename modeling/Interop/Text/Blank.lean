/-
# Blank characters

The characters with the Unicode property `White_Space`.  The zero width space, the byte order
mark and the Mongolian vowel separator do not have it.
-/

namespace Interop.Text

/-- The characters with the property `White_Space`, in order. -/
def blanks : List Char :=
  ['\x09', '\x0a', '\x0b', '\x0c', '\x0d', ' ', '\x85', '\u00a0', '\u1680', '\u2000', '\u2001',
   '\u2002', '\u2003', '\u2004', '\u2005', '\u2006', '\u2007', '\u2008', '\u2009', '\u200a',
   '\u2028', '\u2029', '\u202f', '\u205f', '\u3000']

/-- Tells whether a character is white space. -/
def isBlank (c : Char) : Bool := blanks.contains c

end Interop.Text
