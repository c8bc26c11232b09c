import SemanticChecker.Json.Value

/-! Writes a document without blanks. -/
namespace SemanticChecker

namespace Json

def controlEscape (c : Char) : String :=
  let digits := Nat.toDigits 16 c.toNat
  "\\u" ++ String.ofList (List.replicate (4 - digits.length) '0' ++ digits)

def escapeChar (c : Char) : String :=
  if c = '"' then "\\\""
  else if c = '\\' then "\\\\"
  else if c = '\n' then "\\n"
  else if c = '\r' then "\\r"
  else if c = '\t' then "\\t"
  else if c = '\x08' then "\\b"
  else if c = '\x0c' then "\\f"
  else if c < ' ' then controlEscape c
  else c.toString

def quote (value : String) : String :=
  "\"" ++ String.join (value.toList.map escapeChar) ++ "\""

mutual

def write : Json → String
  | null => "null"
  | bool true => "true"
  | bool false => "false"
  | number text => text
  | string value => quote (value.getD "")
  | array items => "[" ++ ",".intercalate (writeItems items) ++ "]"
  | object members => "\x7b" ++ ",".intercalate (writeMembers members) ++ "\x7d"

def writeItems : List Json → List String
  | [] => []
  | item :: rest => write item :: writeItems rest

def writeMembers : List (Option String × Json) → List String
  | [] => []
  | (key, value) :: rest => (quote (key.getD "") ++ ":" ++ write value) :: writeMembers rest

end

end Json

end SemanticChecker
