import SemanticChecker.Text.Hidden

/-! Texts in double quotes, as messages show them. -/
namespace SemanticChecker

namespace Quoted

def codePoint (c : Char) : String :=
  "\\u\x7b" ++ String.ofList (Nat.toDigits 16 c.toNat) ++ "\x7d"

/-- Quotes, backslashes and hidden characters are escaped; a character from the space to the tilde
is never hidden. -/
def char (c : Char) : String :=
  if c = '"' then "\\\""
  else if c = '\\' then "\\\\"
  else if c = '\n' then "\\n"
  else if c = '\r' then "\\r"
  else if c = '\t' then "\\t"
  else if c.toNat = 0 then "\\0"
  else if ' ' ≤ c && c ≤ '~' then c.toString
  else if isHidden c then codePoint c
  else c.toString

def text (value : String) : String :=
  "\"" ++ String.join (value.toList.map char) ++ "\""

end Quoted

end SemanticChecker
