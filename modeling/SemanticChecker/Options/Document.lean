import SemanticChecker.Options.Token

/-! Options documents: a flat mapping from names to words, one entry a line or all between braces.
Anything nested is refused, since no option takes it. -/
namespace SemanticChecker

namespace OptionDocument

/-- What is known where a word is read: the words that anchors stand for, the latest first, and the
meanings of handles of tags. -/
structure WordScope where
  anchors : List (String × OptionWord) := []
  handles : List (String × String) := []

def standardHandles : List (String × String) :=
  [("!", "!"), ("!!", OptionWord.coreTags)]

structure Properties where
  anchor : Option String := none
  tag : Option (String × String) := none

def Properties.isEmpty (p : Properties) : Bool :=
  p.anchor.isNone && p.tag.isNone

def properties : List OptionToken → Properties × List OptionToken
  | .anchor name :: .tag handle suffix :: rest => (⟨some name, some (handle, suffix)⟩, rest)
  | .tag handle suffix :: .anchor name :: rest => (⟨some name, some (handle, suffix)⟩, rest)
  | .anchor name :: rest => (⟨some name, none⟩, rest)
  | .tag handle suffix :: rest => (⟨none, some (handle, suffix)⟩, rest)
  | tokens => ({}, tokens)

def WordScope.tag? (scope : WordScope) : Option (String × String) → Option (Option String)
  | none => some none
  | some (handle, suffix) =>
    if handle.isEmpty then some (some suffix)
    else (scope.handles.lookup handle).map fun meaning => some (meaning ++ suffix)

def WordScope.note (scope : WordScope) (anchor : Option String) (word : OptionWord) : WordScope :=
  match anchor with
  | some name => { scope with anchors := (name, word) :: scope.anchors }
  | none => scope

/-- The first word of tokens, what is known after it, and the tokens that are left. Properties without a
word stand for the empty word; the tag of a single exclamation mark is no tag. -/
def word? (scope : WordScope) (tokens : List OptionToken) :
    Option (OptionWord × WordScope × List OptionToken) :=
  match tokens with
  | .reference name :: rest => (scope.anchors.lookup name).map fun word => (word, scope, rest)
  | tokens => do
    let (p, rest) := properties tokens
    let tag ← scope.tag? p.tag
    match rest with
    | .word text style :: rest =>
      let word : OptionWord := { text, style, tag := tag.filter (· != "!") }
      return (word, scope.note p.anchor word, rest)
    | rest =>
      if p.isEmpty then none
      else
        let word : OptionWord := { tag }
        return (word, scope.note p.anchor word, rest)

/-- The first word of tokens, or the empty word where one of `ends` comes first. -/
def wordOrEmpty? (ends : List OptionToken) (scope : WordScope) (tokens : List OptionToken) :
    Option (OptionWord × WordScope × List OptionToken) :=
  if tokens.head?.any ends.contains then some ({}, scope, tokens) else word? scope tokens

def value? (ends : List OptionToken) (scope : WordScope) :
    List OptionToken → Option (OptionWord × WordScope × List OptionToken)
  | .value :: rest => wordOrEmpty? ends scope rest
  | tokens => some ({}, scope, tokens)

abbrev Entries := List (String × OptionWord) × List OptionToken

def blockEntries? : Nat → WordScope → List OptionToken → Option Entries
  | 0, _, _ => none
  | _, _, .blockEnd :: rest => some ([], rest)
  | steps + 1, scope, .name :: rest => do
    let (name, scope, rest) ← wordOrEmpty? [.name, .value, .blockEnd] scope rest
    let (value, scope, rest) ← value? [.name, .value, .blockEnd] scope rest
    let (entries, rest) ← blockEntries? steps scope rest
    return ((name.text, value) :: entries, rest)
  | _, _, _ => none

/-- One entry between braces. A word by itself is a name with the empty word. -/
def bracedEntry? (scope : WordScope) :
    List OptionToken → Option ((String × OptionWord) × WordScope × List OptionToken)
  | .name :: rest => do
    let (name, scope, rest) ← wordOrEmpty? [.value, .comma, .closeBrace] scope rest
    let (value, scope, rest) ← value? [.comma, .closeBrace] scope rest
    return ((name.text, value), scope, rest)
  | tokens => do
    let (name, scope, rest) ← word? scope tokens
    return ((name.text, {}), scope, rest)

/-- Entries between braces, after the opening one; a comma may follow the last. -/
def bracedEntries? : Nat → WordScope → List OptionToken → Option Entries
  | 0, _, _ => none
  | _, _, .closeBrace :: rest => some ([], rest)
  | steps + 1, scope, tokens => do
    let (entry, scope, rest) ← bracedEntry? scope tokens
    match rest with
    | .closeBrace :: rest => return ([entry], rest)
    | .comma :: rest =>
      let (entries, rest) ← bracedEntries? steps scope rest
      return (entry :: entries, rest)
    | _ => none

/-- The entries of a document that starts with content. A plain word without text is a document without
entries; any other word is refused. -/
def content? (scope : WordScope) (tokens : List OptionToken) : Option Entries := do
  let (p, rest) := properties tokens
  let _ ← scope.tag? p.tag
  match rest with
  | .openBrace :: rest => bracedEntries? rest.length scope rest
  | .blockStart :: rest => blockEntries? rest.length scope rest
  | .word _ _ :: _ => none
  | rest => if p.isEmpty then none else some ([], rest)

/-- Directives in front of a document: the version at most once, and each handle at most once. -/
def directives? (isVersioned : Bool) (handles : List (String × String)) :
    List OptionToken → Option (List (String × String) × List OptionToken)
  | .version major minor :: rest =>
    if isVersioned || major != 1 || (minor != 1 && minor != 2) then none
    else directives? true handles rest
  | .tagHandle handle meaning :: rest =>
    if (handles.lookup handle).isSome then none
    else directives? isVersioned ((handle, meaning) :: handles) rest
  | tokens => some (handles, tokens)

/-- The entries of the document that starts a text. Directives ask for a start mark after them. -/
def document? (tokens : List OptionToken) : Option Entries :=
  match tokens with
  | [] => some ([], [])
  | .version _ _ :: _ | .tagHandle _ _ :: _ | .documentStart :: _ => do
    let (handles, rest) ← directives? false [] tokens
    match rest with
    | .documentStart :: rest =>
      match rest with
      | [] | .version _ _ :: _ | .tagHandle _ _ :: _ | .documentStart :: _ | .documentEnd :: _ =>
        return ([], rest)
      | rest => content? { handles := handles ++ standardHandles } rest
    | _ => none
  | tokens => content? { handles := standardHandles } tokens

/-- The entries of a text; nothing but end marks may follow its document. -/
def entries? (text : String) : Option (List (String × OptionWord)) := do
  let (entries, rest) ← document? (← OptionToken.ofText? text)
  if rest.all (· == .documentEnd) then some entries else none

end OptionDocument

end SemanticChecker
