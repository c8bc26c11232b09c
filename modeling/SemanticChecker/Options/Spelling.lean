import SemanticChecker.Options.Cursor
import SemanticChecker.Options.Word

/-! How words of an options document are spelled: plain, between quotes, or as a block of lines. A word
may run over several lines; a single line break inside it then counts as a space. -/
namespace SemanticChecker

open OptionText

/-- A word that was read, and the place after it. -/
structure Spelled where
  text : List Char
  cursor : Cursor
  /-- Whether the word is followed by a line break that was passed. -/
  broken : Bool := false

structure WordGap where
  blanks : List Char := []
  breaks : List Char := []
  /-- A line break before all others was escaped and does not count. -/
  escaped : Bool := false

namespace WordGap

def isBroken (gap : WordGap) : Bool :=
  gap.escaped || !gap.breaks.isEmpty

/-- Blanks around line breaks are dropped, and the first break too; if it is the only one, it becomes a
space. A first break of the kind that is always kept stays. -/
def text (gap : WordGap) : List Char :=
  if gap.escaped then gap.breaks
  else
    match gap.breaks with
    | [] => gap.blanks
    | ['\n'] => [' ']
    | '\n' :: more => more
    | breaks => breaks

/-- Reads blanks and line breaks. Where a line break came before, no tab may stand left of the margin. -/
def read? (margin : Nat) (broken : Bool) : Nat → Cursor → Option (WordGap × Cursor)
  | 0, cursor => some ({}, cursor)
  | steps + 1, cursor =>
    match cursor.rest with
    | [] => some ({}, cursor)
    | c :: _ =>
      if isBreak c then do
        let (gap, cursor) ← read? margin true steps cursor.skipBreak
        return ({ gap with breaks := keptBreak c :: gap.breaks }, cursor)
      else if !isBlank c then some ({}, cursor)
      else if !broken then do
        let (gap, cursor) ← read? margin false steps cursor.skip
        return ({ gap with blanks := c :: gap.blanks }, cursor)
      else if c == '\t' && cursor.column < margin then none
      else read? margin true steps cursor.skip

end WordGap

namespace Spelled

def isBrace (c : Char) : Bool :=
  c == '[' || c == ']' || c == '\x7b' || c == '\x7d'

/-- The characters of a plain word up to a blank, a line break, or a colon that a blank follows. Between
braces, commas and braces end it too, and a colon right before one is refused. -/
def plainRun? (inBraces : Bool) : List Char → Option (List Char)
  | [] => some []
  | c :: rest =>
    let isSign := fun (c : Char) => c == ',' || c == '?' || isBrace c
    if isBlank c || isBreak c then some []
    else if inBraces && c == ':' && rest.head?.any isSign then none
    else if (c == ':' && isDivided rest) || (inBraces && (c == ',' || isBrace c)) then some []
    else (plainRun? inBraces rest).map (c :: ·)

def after (text : List Char) (word : Spelled) : Spelled :=
  { word with text := text ++ word.text }

/-- Goes on with a plain word after a gap. It ends before a comment, a document mark, and outside braces
before a line that starts left of the margin. There have to be as many steps as characters. -/
def plainFrom? (inBraces : Bool) (margin : Nat) : Nat → Cursor → WordGap → Option Spelled
  | 0, cursor, gap => some ⟨[], cursor, gap.isBroken⟩
  | steps + 1, cursor, gap =>
    if cursor.isAtDocumentMark || cursor.next? == some '#' then some ⟨[], cursor, gap.isBroken⟩
    else do
      let run ← plainRun? inBraces cursor.rest
      if run.isEmpty then return ⟨[], cursor, gap.isBroken⟩
      let text := gap.text ++ run
      let (gap, cursor) ← WordGap.read? margin false steps (cursor.advance run.length)
      if !inBraces && cursor.column < margin then return ⟨text, cursor, gap.isBroken⟩
      return (← plainFrom? inBraces margin steps cursor gap).after text

def plain? (inBraces : Bool) (margin : Nat) (cursor : Cursor) : Option Spelled :=
  plainFrom? inBraces margin cursor.rest.length cursor {}

structure QuotedRun where
  text : List Char := []
  length : Nat := 0
  /-- The line break that comes next was escaped. -/
  escaped : Bool := false

/-- A run with one more character in front, which spells the given text. -/
def QuotedRun.after (text : List Char) (run : QuotedRun) : QuotedRun :=
  { run with text := text ++ run.text, length := run.length + 1 }

def escape? : Char → Option Char
  | '0' => some '\x00'
  | 'a' => some '\x07'
  | 'b' => some '\x08'
  | 't' => some '\t'
  | '\t' => some '\t'
  | 'n' => some '\n'
  | 'v' => some '\x0b'
  | 'f' => some '\x0c'
  | 'r' => some '\r'
  | 'e' => some '\x1b'
  | ' ' => some ' '
  | '"' => some '"'
  | '/' => some '/'
  | '\\' => some '\\'
  | 'N' => some '\u0085'
  | '_' => some '\u00a0'
  | 'L' => some '\u2028'
  | 'P' => some '\u2029'
  | _ => none

def escapeLength? : Char → Option Nat
  | 'x' => some 2
  | 'u' => some 4
  | 'U' => some 8
  | _ => none

/-- How far an escape between double quotes has come. -/
inductive Escape where
  | idle
  | started
  /-- Digits are still to come after those that make up the value. -/
  | digits (left value : Nat)

def doubleRun? : Escape → List Char → Option QuotedRun
  | .idle, [] => some {}
  | .idle, c :: rest =>
    if isBlank c || isBreak c || c == '"' then some {}
    else if c == '\\' then (doubleRun? .started rest).map (·.after [])
    else (doubleRun? .idle rest).map (·.after [c])
  | _, [] => none
  | .started, c :: rest =>
    if isBreak c then some { escaped := true }
    else
      match escape? c, escapeLength? c with
      | some kept, _ => (doubleRun? .idle rest).map (·.after [kept])
      | none, some length => (doubleRun? (.digits length 0) rest).map (·.after [])
      | none, none => none
  | .digits left value, c :: rest => do
    let value := value * 16 + (← OptionWord.digitValue? c)
    if 1 < left then (doubleRun? (.digits (left - 1) value) rest).map (·.after [])
    else if !value.isValidChar then none
    else (doubleRun? .idle rest).map (·.after [Char.ofNat value])

def singleRun : List Char → QuotedRun
  | [] => {}
  | '\'' :: '\'' :: rest => ((singleRun rest).after ['\'']).after []
  | c :: rest =>
    if isBlank c || isBreak c || c == '\'' then {} else (singleRun rest).after [c]

/-- Goes on with a quoted word up to its closing quote. No line of it may start with a document mark.
There have to be as many steps as characters. -/
def quotedFrom? (quote : Char) : Nat → Cursor → Option Spelled
  | 0, _ => none
  | steps + 1, cursor =>
    if cursor.isAtDocumentMark || cursor.rest.isEmpty then none
    else do
      let run ← if quote == '"' then doubleRun? .idle cursor.rest else some (singleRun cursor.rest)
      let cursor := cursor.advance run.length
      let cursor := if run.escaped then cursor.skipBreak else cursor
      if cursor.next? == some quote then return ⟨run.text, cursor.skip, false⟩
      let (gap, cursor) ← WordGap.read? 0 run.escaped steps cursor
      let gap := { gap with escaped := run.escaped }
      return (← quotedFrom? quote steps cursor).after (run.text ++ gap.text)

def quoted? (quote : Char) (cursor : Cursor) : Option Spelled :=
  quotedFrom? quote (cursor.rest.length + 1) cursor.skip

/-- What becomes of the line breaks after the last line of a block: the first stays, none stays, or all
stay. -/
inductive BlockEnd where
  | clip | strip | keep
  deriving DecidableEq

/-- How a block of lines was announced. Without a number, its first line gives its indentation. -/
structure BlockHeader where
  indent : Option Nat := none
  ending : BlockEnd := .clip

def blockEnd? : Char → Option BlockEnd
  | '+' => some .keep
  | '-' => some .strip
  | _ => none

/-- The header of a block and the text after it; a number and a sign may come in either order. -/
def blockHeader? : List Char → Option (BlockHeader × List Char)
  | c :: rest =>
    match blockEnd? c with
    | some ending =>
      match rest with
      | d :: rest =>
        if d == '0' then none
        else if d.isDigit then some (⟨some (d.toNat - '0'.toNat), ending⟩, rest)
        else some (⟨none, ending⟩, d :: rest)
      | [] => some (⟨none, ending⟩, [])
    | none =>
      if c == '0' then none
      else if c.isDigit then
        let indent := some (c.toNat - '0'.toNat)
        match rest.head? >>= blockEnd? with
        | some ending => some (⟨indent, ending⟩, rest.tail)
        | none => some (⟨indent, .clip⟩, rest)
      else some ({}, c :: rest)
  | [] => some ({}, [])

structure BlockGap where
  cursor : Cursor
  breaks : List Char := []
  furthest : Nat := 0

/-- Passes indentation and empty lines. No tab may stand within the indentation; while that is not
known, all spaces belong to it. -/
def blockGap? (indent : Option Nat) : Nat → BlockGap → Option BlockGap
  | 0, gap => some gap
  | steps + 1, gap =>
    let room := match indent with
      | some indent => indent - gap.cursor.column
      | none => gap.cursor.rest.length
    let spaces := ((gap.cursor.rest.take room).takeWhile (· == ' ')).length
    let cursor := gap.cursor.advance spaces
    let furthest := if gap.furthest < cursor.column then cursor.column else gap.furthest
    let isInside := indent.all (cursor.column < ·)
    match cursor.rest with
    | [] => some { gap with cursor, furthest }
    | c :: _ =>
      if isInside && c == '\t' then none
      else if isBreak c then
        blockGap? indent steps ⟨cursor.skipBreak, gap.breaks ++ [keptBreak c], furthest⟩
      else some { gap with cursor, furthest }

structure BlockLines where
  text : List Char := []
  /-- The line break after the last line, if it has one. -/
  lastBreak : List Char := []
  gap : BlockGap
  startedBlank : Bool := false

/-- Reads the lines of a block. Between two lines of a folded block that do not start with a blank, a
single line break counts as a space and the first of several is dropped. -/
def blockLines? (folded : Bool) (indent : Nat) : Nat → BlockLines → Option BlockLines
  | 0, lines => some lines
  | steps + 1, lines =>
    let cursor := lines.gap.cursor
    match cursor.rest with
    | [] => some lines
    | c :: _ =>
      if cursor.column != indent then some lines
      else do
        let isFolded := folded && lines.lastBreak == ['\n'] && !lines.startedBlank && !isBlank c
        let between :=
          if !isFolded then lines.lastBreak else if lines.gap.breaks.isEmpty then [' '] else []
        let line := cursor.rest.takeWhile (!isBreak ·)
        let cursor := cursor.advance line.length
        let gap ← blockGap? (some indent) cursor.rest.length { cursor := cursor.skipBreak }
        blockLines? folded indent steps {
          text := lines.text ++ between ++ lines.gap.breaks ++ line
          lastBreak := (cursor.next?.map keptBreak).toList
          gap, startedBlank := isBlank c }

/-- A block of lines, from the sign that announces it. The margin is the least indentation that its
lines may have unless the header gives a number, which counts from the lines around the block. -/
def block? (folded : Bool) (margin : Nat) (cursor : Cursor) : Option Spelled := do
  let cursor := cursor.skip
  let (header, rest) ← blockHeader? cursor.rest
  let cursor := (cursor.moveTo rest).skipBlanks.skipComment
  if !cursor.next?.all isBreak then none
  let cursor := cursor.skipBreak
  let given := header.indent.map fun indent => margin - 1 + indent
  let gap ← blockGap? given (cursor.rest.length + 1) { cursor }
  let least := if margin < 1 then 1 else margin
  let indent := given.getD (if gap.furthest < least then least else gap.furthest)
  let lines ← blockLines? folded indent (cursor.rest.length + 1) { gap }
  let ending := match header.ending with
    | .strip => []
    | .clip => lines.lastBreak
    | .keep => lines.lastBreak ++ lines.gap.breaks
  return ⟨lines.text ++ ending, lines.gap.cursor, false⟩

end Spelled

end SemanticChecker
