import FlatHeap.Text.Hex
import FlatHeap.Text.Printable

/-!
# Quoted text

A text is quoted between double quotes.  The quote, the backslash and four control characters have
short escapes, a single quote stands as it is, and every other character that does not show is
written by its number in braces.
-/

namespace FlatHeap.Text

def escape (c : Char) : String :=
  if c = Char.ofNat 0x00 then "\\0"
  else if c = '\t' then "\\t"
  else if c = '\r' then "\\r"
  else if c = '\n' then "\\n"
  else if c = '\\' then "\\\\"
  else if c = Char.ofNat 0x22 then "\\\""
  else if isShown c then c.toString
  else "\\u\x7b" ++ hex 1 c.toNat ++ "\x7d"

def quote (s : String) : String :=
  "\"" ++ String.join (s.toList.map escape) ++ "\""

end FlatHeap.Text
