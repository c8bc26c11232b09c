import SemanticChecker.Options.Spelling

/-! Tokens of an options document. A document is a flat mapping, so the scan gives up where something
nested starts. Whether a word is the name of an entry shows only at the colon after it: the token that
announces a name is put in front of it then. -/
namespace SemanticChecker

open OptionText

inductive OptionToken where
  /-- A line that names the version of the format. -/
  | version (major minor : Nat)
  /-- A line that says what a handle of tags stands for. -/
  | tagHandle (handle meaning : String)
  | documentStart
  | documentEnd
  | blockStart
  | blockEnd
  | openBrace
  | closeBrace
  | comma
  | name
  | value
  | anchor (name : String)
  | reference (name : String)
  | tag (handle suffix : String)
  | word (text : String) (style : WordStyle)
  deriving DecidableEq, Repr

structure PossibleName where
  position : Nat
  cursor : Cursor
  required : Bool

structure OptionScan where
  cursor : Cursor
  tokens : List OptionToken := []
  inBraces : Bool := false
  /-- The column of the entries, where they stand one a line. -/
  indent : Option Nat := none
  /-- Whether a name may start at the next token. -/
  nameAllowed : Bool := true
  possible : Option PossibleName := none

namespace OptionScan

def push (scan : OptionScan) (token : OptionToken) : OptionScan :=
  { scan with tokens := token :: scan.tokens }

def margin (scan : OptionScan) : Nat :=
  match scan.indent with
  | some indent => indent + 1
  | none => 0

/-- Passes blanks, comments and line breaks, and a byte order mark at the start of a line, which takes up
a column. Where a name may start outside braces, a tab is no blank; after a line break outside braces a
name may start. -/
def skipToToken : Nat → OptionScan → OptionScan
  | 0, scan => scan
  | steps + 1, scan =>
    let isSkipped := fun c => c == ' ' || (c == '\t' && (scan.inBraces || !scan.nameAllowed))
    let cursor := (scan.cursor.skipOrderMark.skipWhile isSkipped).skipComment
    match cursor.rest with
    | [] => { scan with cursor }
    | c :: _ =>
      if isBreak c then
        skipToToken steps
          { scan with cursor := cursor.skipBreak, nameAllowed := scan.nameAllowed || !scan.inBraces }
      else { scan with cursor }

def nameLimit : Nat := 1024

/-- Gives up a possible name that is too far behind; a colon has to follow on its line. -/
def dropStaleName? (scan : OptionScan) : Option OptionScan :=
  match scan.possible with
  | none => some scan
  | some start =>
    if start.cursor.line < scan.cursor.line || start.cursor.index + nameLimit < scan.cursor.index then
      if start.required then none else some { scan with possible := none }
    else some scan

def dropName? (scan : OptionScan) : Option OptionScan :=
  match scan.possible with
  | some start => if start.required then none else some { scan with possible := none }
  | none => some scan

def noteName? (scan : OptionScan) : Option OptionScan :=
  if !scan.nameAllowed then some scan
  else do
    let scan ← scan.dropName?
    let required := !scan.inBraces && scan.indent == some scan.cursor.column
    return { scan with possible := some ⟨scan.tokens.length, scan.cursor, required⟩ }

/-- Ends the entries that stand one a line when something stands left of them. -/
def closeBlock (scan : OptionScan) (isOutside : Nat → Bool) : OptionScan :=
  if !scan.inBraces && scan.indent.any isOutside then { scan.push .blockEnd with indent := none }
  else scan

/-- Starts entries, one a line, at a column; the token goes behind `later` ones. Entries inside an entry
are refused. -/
def openBlock? (scan : OptionScan) (column later : Nat) : Option OptionScan :=
  match scan.indent with
  | some indent => if scan.inBraces || column ≤ indent then some scan else none
  | none =>
    if scan.inBraces then some scan
    else
      let (after, before) := scan.tokens.splitAt later
      some { scan with tokens := after ++ .blockStart :: before, indent := some column }

def sign? (scan : OptionScan) (token : OptionToken) (length : Nat) : Option OptionScan := do
  let scan ← scan.dropName?
  return { scan with cursor := scan.cursor.advance length }.push token

def closeBrace? (scan : OptionScan) : Option OptionScan := do
  let scan ← scan.sign? .closeBrace 1
  return { scan with inBraces := false, nameAllowed := false }

def documentMark? (scan : OptionScan) (token : OptionToken) : Option OptionScan :=
  { scan.closeBlock (fun _ => true) with nameAllowed := false }.sign? token 3

def nameSign? (scan : OptionScan) : Option OptionScan := do
  if !scan.inBraces && !scan.nameAllowed then none
  let scan ← scan.openBlock? scan.cursor.column 0
  { scan with nameAllowed := !scan.inBraces }.sign? .name 1

/-- A colon before a value. What stands since the possible name is the name. -/
def valueSign? (scan : OptionScan) : Option OptionScan := do
  let scan ← match scan.possible with
    | some start => do
      let later := scan.tokens.length - start.position
      let scan ← scan.openBlock? start.cursor.column later
      let (after, before) := scan.tokens.splitAt later
      pure { scan with tokens := after ++ .name :: before, possible := none, nameAllowed := false }
    | none => do
      if !scan.inBraces && !scan.nameAllowed then none
      let scan ← scan.openBlock? scan.cursor.column 0
      pure { scan with nameAllowed := !scan.inBraces }
  return { scan with cursor := scan.cursor.skip }.push .value

def anchorName? (scan : OptionScan) (token : String → OptionToken) : Option OptionScan := do
  let scan ← scan.noteName?
  let cursor := scan.cursor.skip
  let name := cursor.rest.takeWhile isNameChar
  let cursor := cursor.advance name.length
  let isEnd := fun (c : Char) => ['?', ':', ',', ']', '\x7d', '%', '@', '\x60'].contains c
  if name.isEmpty || !(isDivided cursor.rest || cursor.next?.any isEnd) then none
  return { scan with cursor, nameAllowed := false }.push (token (String.ofList name))

/-- The characters of a tag after its handle; between angle brackets some more may stand there. Bytes
given by number are not taken. -/
def isTagChar (inBrackets : Bool) (c : Char) : Bool :=
  isNameChar c ||
    [';', '/', '?', ':', '@', '&', '=', '+', '$', '.', '!', '~', '*', '\'', '(', ')'].contains c ||
    (inBrackets && (c == ',' || c == '[' || c == ']'))

/-- The handle at the start of a tag: the text between two exclamation marks, or a single one. -/
def tagHandle (text : List Char) : List Char :=
  match text with
  | '!' :: rest =>
    let name := rest.takeWhile isNameChar
    match rest.drop name.length with
    | '!' :: _ => '!' :: name ++ ['!']
    | _ => ['!']
  | _ => []

def tag? (scan : OptionScan) : Option OptionScan := do
  let scan ← scan.noteName?
  let (handle, suffix, rest) ← match scan.cursor.rest with
    | '!' :: '<' :: rest =>
      let name := rest.takeWhile (isTagChar true)
      match rest.drop name.length with
      | '>' :: rest => if name.isEmpty then none else some ([], name, rest)
      | _ => none
    | text =>
      let handle := tagHandle text
      let rest := text.drop handle.length
      let name := rest.takeWhile (isTagChar false)
      let rest := rest.drop name.length
      if !name.isEmpty then some (handle, name, rest)
      else if handle == ['!'] then some ([], ['!'], rest)
      else none
  if !(isDivided rest || (scan.inBraces && rest.head? == some ',')) then none
  return { scan with cursor := scan.cursor.moveTo rest, nameAllowed := false }.push
    (.tag (String.ofList handle) (String.ofList suffix))

/-- A directive, which takes up its line: the version of the format, or a handle of tags. -/
def directive? (scan : OptionScan) : Option OptionScan := do
  let scan ← (scan.closeBlock fun _ => true).dropName?
  let cursor := scan.cursor.skip
  let name := cursor.rest.takeWhile isNameChar
  let rest := cursor.rest.drop name.length
  if !isDivided rest then none
  let rest := rest.dropWhile isBlank
  let (token, rest) ← match String.ofList name with
    | "YAML" => do
      let major := rest.takeWhile Char.isDigit
      let minor := (rest.drop (major.length + 1)).takeWhile Char.isDigit
      if (rest.drop major.length).head? != some '.' || 9 < major.length || 9 < minor.length then none
      pure (.version (← OptionWord.digits? 10 major) (← OptionWord.digits? 10 minor),
        rest.drop (major.length + 1 + minor.length))
    | "TAG" => do
      let handle := tagHandle rest
      let rest := rest.drop handle.length
      if handle.isEmpty || !rest.head?.any isBlank then none
      let rest := rest.dropWhile isBlank
      let meaning := rest.takeWhile (isTagChar true)
      let rest := rest.drop meaning.length
      if meaning.isEmpty || !isDivided rest then none
      pure (OptionToken.tagHandle (String.ofList handle) (String.ofList meaning), rest)
    | _ => none
  let cursor := (cursor.moveTo rest).skipBlanks.skipComment
  if !cursor.next?.all isBreak then none
  return { scan with cursor := cursor.skipBreak, nameAllowed := false }.push token

/-- A word. After a block of lines, or a plain word with a line break behind it, a name may start. -/
def word? (scan : OptionScan) (style : WordStyle) (spelled : Option Spelled) : Option OptionScan := do
  let scan ← if style == .literal || style == .folded then scan.dropName? else scan.noteName?
  let spelled ← spelled
  let nameAllowed := style == .literal || style == .folded || spelled.broken
  return { scan with cursor := spelled.cursor, nameAllowed }.push (.word (String.ofList spelled.text) style)

def isSign (c : Char) : Bool :=
  ['-', '?', ':', ',', '[', ']', '\x7b', '\x7d', '#', '&', '*', '!', '|', '>', '\'', '"', '%', '@',
    '\x60'].contains c

def token? (scan : OptionScan) (c : Char) (rest : List Char) : Option OptionScan :=
  let cursor := scan.cursor
  if cursor.column == 0 && c == '%' then scan.directive?
  else if cursor.isAtMark "---" then scan.documentMark? .documentStart
  else if cursor.isAtMark "..." then scan.documentMark? .documentEnd
  else if c == '\x7b' then
    if scan.inBraces || scan.indent.isSome then none
    else { scan with inBraces := true, nameAllowed := true, possible := none }.sign? .openBrace 1
  else if c == '\x7d' then
    if scan.inBraces then scan.closeBrace? else none
  else if c == ',' then
    if scan.inBraces then { scan with nameAllowed := true }.sign? .comma 1 else none
  else if c == '?' && (scan.inBraces || isDivided rest) then scan.nameSign?
  else if c == ':' && (scan.inBraces || isDivided rest) then scan.valueSign?
  else if c == '*' then scan.anchorName? .reference
  else if c == '&' then scan.anchorName? .anchor
  else if c == '!' then scan.tag?
  else if c == '|' && !scan.inBraces then
    scan.word? .literal (Spelled.block? false scan.margin cursor)
  else if c == '>' && !scan.inBraces then
    scan.word? .folded (Spelled.block? true scan.margin cursor)
  else if c == '\'' || c == '"' then scan.word? .quoted (Spelled.quoted? c cursor)
  else if !(isSign c || isBlank c) || (c == '-' && !isDivided rest) ||
      (!scan.inBraces && (c == '?' || c == ':')) then
    scan.word? .plain (Spelled.plain? scan.inBraces scan.margin cursor)
  else none

/-- Takes token after token up to the end of the text, which has to have fewer characters than there are
steps. -/
def run? : Nat → OptionScan → Option (List OptionToken)
  | 0, _ => none
  | steps + 1, scan => do
    let scan ← (scan.skipToToken (steps + 1)).dropStaleName?
    let scan := scan.closeBlock (scan.cursor.column < ·)
    match scan.cursor.rest with
    | [] => return ((← scan.dropName?).closeBlock fun _ => true).tokens.reverse
    | c :: rest => run? steps (← scan.token? c rest)

end OptionScan

namespace OptionToken

def ofText? (text : String) : Option (List OptionToken) :=
  let chars := text.toList
  if !chars.all isAllowed then none
  else OptionScan.run? (chars.length + 1) { cursor := { rest := chars } }

end OptionToken

end SemanticChecker
