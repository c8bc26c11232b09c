/-! Places in the text of an options document, and the characters that divide it. -/
namespace SemanticChecker

namespace OptionText

def isAllowed (c : Char) : Bool :=
  c == '\t' || c == '\n' || c == '\r' || (' ' ≤ c && c ≤ '~') || c == '\u0085' ||
    ('\u00a0' ≤ c && c != '\ufffe' && c != '\uffff')

def isBlank (c : Char) : Bool :=
  c == ' ' || c == '\t'

def isBreak (c : Char) : Bool :=
  c == '\n' || c == '\r' || c == '\u0085' || c == '\u2028' || c == '\u2029'

def keptBreak (c : Char) : Char :=
  if c == '\u2028' || c == '\u2029' then c else '\n'

def isDivided : List Char → Bool
  | [] => true
  | c :: _ => isBlank c || isBreak c

def isNameChar (c : Char) : Bool :=
  c.isAlphanum || c == '_' || c == '-'

end OptionText

open OptionText

/-- The text that is left, and how many characters, lines, and characters of the line are passed. -/
structure Cursor where
  rest : List Char
  index : Nat := 0
  line : Nat := 0
  column : Nat := 0

namespace Cursor

def next? (cursor : Cursor) : Option Char :=
  cursor.rest.head?

def moveTo (cursor : Cursor) (rest : List Char) : Cursor :=
  let passed := cursor.rest.length - rest.length
  { cursor with rest, index := cursor.index + passed, column := cursor.column + passed }

def advance (cursor : Cursor) (count : Nat) : Cursor :=
  { cursor with
    rest := cursor.rest.drop count, index := cursor.index + count, column := cursor.column + count }

def skip (cursor : Cursor) : Cursor :=
  if cursor.rest.isEmpty then cursor else cursor.advance 1

def skipWhile (cursor : Cursor) (p : Char → Bool) : Cursor :=
  cursor.advance (cursor.rest.takeWhile p).length

/-- Passes a line break, if one comes next; a carriage return and a line feed are one break. -/
def skipBreak (cursor : Cursor) : Cursor :=
  match cursor.rest with
  | '\r' :: '\n' :: rest => { rest, index := cursor.index + 2, line := cursor.line + 1 }
  | c :: rest =>
    if isBreak c then { rest, index := cursor.index + 1, line := cursor.line + 1 } else cursor
  | [] => cursor

def skipBlanks (cursor : Cursor) : Cursor :=
  cursor.skipWhile isBlank

def skipOrderMark (cursor : Cursor) : Cursor :=
  if cursor.column == 0 && cursor.next? == some '\ufeff' then cursor.skip else cursor

/-- Passes a comment, if one starts here, up to the end of its line. -/
def skipComment (cursor : Cursor) : Cursor :=
  if cursor.next? == some '#' then cursor.skipWhile (!isBreak ·) else cursor

/-- Whether a mark of three characters stands at the start of the line and by itself. -/
def isAtMark (cursor : Cursor) (mark : String) : Bool :=
  cursor.column == 0 && mark.toList.isPrefixOf cursor.rest && isDivided (cursor.rest.drop 3)

/-- Whether the line starts with a mark that starts or ends a document. -/
def isAtDocumentMark (cursor : Cursor) : Bool :=
  cursor.isAtMark "---" || cursor.isAtMark "..."

end Cursor

end SemanticChecker
