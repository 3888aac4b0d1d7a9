import WireCall.Text.Plain
import WireCall.Bytes

/-!
# Quoted text

Text inside a message about it is put in double quotes. The quote, the backslash, the zero
character, the tabulator and the two line ends are written with a backslash and a letter, and every
other character that does not stand for itself by its code point.
-/

namespace WireCall

namespace Text

/-- How one character is written between double quotes. -/
def quotedChar (c : Char) : String :=
  if c = '"' then "\\\""
  else if c = '\\' then "\\\\"
  else if c = '\x00' then "\\0"
  else if c = '\t' then "\\t"
  else if c = '\n' then "\\n"
  else if c = '\r' then "\\r"
  else if isPlain c then c.toString
  else "\\u\x7b" ++ String.ofList (Nat.toDigits 16 c.toNat) ++ "\x7d"

/-- A text in double quotes. -/
def quoted (s : String) : String :=
  "\"" ++ s.foldl (fun acc c => acc ++ quotedChar c) "" ++ "\""

end Text

end WireCall
