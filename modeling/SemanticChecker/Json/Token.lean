/-! The words of a document: marks, names, numbers and texts. The reader is a machine that takes one
character at a time. -/
namespace SemanticChecker

inductive JsonToken where
  | openBrace | closeBrace | openBracket | closeBracket | comma | colon
  | null
  | bool (value : Bool)
  | number (text : String)
  | string (value : Option String)
  deriving DecidableEq, Repr

namespace JsonToken

def isBlank (c : Char) : Bool :=
  c == ' ' || c == '\t' || c == '\n' || c == '\r'

def mark? (c : Char) : Option JsonToken :=
  if c = '\x7b' then some openBrace
  else if c = '\x7d' then some closeBrace
  else if c = '[' then some openBracket
  else if c = ']' then some closeBracket
  else if c = ',' then some comma
  else if c = ':' then some colon
  else none

def inNumber (c : Char) : Bool :=
  c.isDigit || c == '-' || c == '+' || c == '.' || c == 'e' || c == 'E'

def digits? (text : List Char) : Option (List Char) :=
  match text with
  | c :: rest => if c.isDigit then some (rest.dropWhile Char.isDigit) else none
  | [] => none

/-- What follows a whole number: a zero, or digits that do not start with one. -/
def whole? : List Char → Option (List Char)
  | '0' :: rest => some rest
  | text => digits? text

def fraction? : List Char → Option (List Char)
  | '.' :: rest => digits? rest
  | text => some text

def exponent? : List Char → Option (List Char)
  | c :: rest =>
    if c = 'e' || c = 'E' then
      match rest with
      | '+' :: digits => digits? digits
      | '-' :: digits => digits? digits
      | digits => digits? digits
    else some (c :: rest)
  | [] => some []

def isNumber (text : List Char) : Bool :=
  let unsigned := match text with
    | '-' :: rest => rest
    | text => text
  (whole? unsigned >>= fraction? >>= exponent?) == some []

def hexDigit? (c : Char) : Option Nat :=
  if c.isDigit then some (c.toNat - '0'.toNat)
  else if 'a' ≤ c && c ≤ 'f' then some (c.toNat - 'a'.toNat + 10)
  else if 'A' ≤ c && c ≤ 'F' then some (c.toNat - 'A'.toNat + 10)
  else none

def escape? (c : Char) : Option Char :=
  if c = '"' || c = '\\' || c = '/' then some c
  else if c = 'b' then some '\x08'
  else if c = 'f' then some '\x0c'
  else if c = 'n' then some '\n'
  else if c = 'r' then some '\r'
  else if c = 't' then some '\t'
  else none

end JsonToken

/-- A text part way through: its characters in reverse, the high half of a surrogate pair that waits
for its low half, and whether a half stood alone. -/
structure PartialText where
  reversed : List Char := []
  high : Option Nat := none
  broken : Bool := false

namespace PartialText

def push (text : PartialText) (c : Char) : PartialText :=
  { reversed := c :: text.reversed, broken := text.broken || text.high.isSome }

def pushUnit (text : PartialText) (unit : Nat) : PartialText :=
  if 0xD800 ≤ unit && unit < 0xDC00 then
    { text with high := some unit, broken := text.broken || text.high.isSome }
  else if 0xDC00 ≤ unit && unit < 0xE000 then
    match text.high with
    | some high =>
      let point := 0x10000 + (high - 0xD800) * 0x400 + (unit - 0xDC00)
      { reversed := Char.ofNat point :: text.reversed, broken := text.broken }
    | none => { text with broken := true }
  else text.push (Char.ofNat unit)

def finish (text : PartialText) : Option String :=
  if text.broken || text.high.isSome then none else some (String.ofList text.reversed.reverse)

end PartialText

inductive LexerState where
  | between
  | inText (text : PartialText)
  | inEscape (text : PartialText)
  /-- In a code unit, after `count` of its four digits. -/
  | inUnit (text : PartialText) (count value : Nat)
  | inNumber (reversed : List Char)
  | inWord (reversed : List Char)

/-- The tokens found so far, in reverse, and the state. -/
structure Lexer where
  tokens : List JsonToken := []
  state : LexerState := .between

namespace Lexer

def emit (lexer : Lexer) (token : JsonToken) : Lexer :=
  { tokens := token :: lexer.tokens }

/-- A character that stands outside every token that is part way through. -/
def start (lexer : Lexer) (c : Char) : Option Lexer :=
  if JsonToken.isBlank c then some { lexer with state := .between }
  else if c = '"' then some { lexer with state := .inText {} }
  else if JsonToken.inNumber c && !c.isAlpha then some { lexer with state := .inNumber [c] }
  else if c.isAlpha then some { lexer with state := .inWord [c] }
  else (JsonToken.mark? c).map lexer.emit

def finish (lexer : Lexer) : Option Lexer :=
  match lexer.state with
  | .between => some lexer
  | .inNumber reversed =>
    let text := reversed.reverse
    if JsonToken.isNumber text then some (lexer.emit (.number (String.ofList text))) else none
  | .inWord reversed =>
    match String.ofList reversed.reverse with
    | "null" => some (lexer.emit .null)
    | "true" => some (lexer.emit (.bool true))
    | "false" => some (lexer.emit (.bool false))
    | _ => none
  | _ => none

def step (lexer : Lexer) (c : Char) : Option Lexer :=
  match lexer.state with
  | .between => lexer.start c
  | .inText text =>
    if c = '"' then some (lexer.emit (.string text.finish))
    else if c = '\\' then some { lexer with state := .inEscape text }
    else if c < ' ' then none
    else some { lexer with state := .inText (text.push c) }
  | .inEscape text =>
    if c = 'u' then some { lexer with state := .inUnit text 0 0 }
    else (JsonToken.escape? c).map fun escaped => { lexer with state := .inText (text.push escaped) }
  | .inUnit text count value =>
    (JsonToken.hexDigit? c).map fun digit =>
      let value := value * 16 + digit
      if count = 3 then { lexer with state := .inText (text.pushUnit value) }
      else { lexer with state := .inUnit text (count + 1) value }
  | .inNumber reversed =>
    if JsonToken.inNumber c then some { lexer with state := .inNumber (c :: reversed) }
    else lexer.finish >>= fun lexer => lexer.start c
  | .inWord reversed =>
    if c.isAlpha then some { lexer with state := .inWord (c :: reversed) }
    else lexer.finish >>= fun lexer => lexer.start c

end Lexer

def JsonToken.ofText? (text : String) : Option (List JsonToken) := do
  let lexer ← text.toList.foldlM Lexer.step {}
  return (← lexer.finish).tokens.reverse

end SemanticChecker
