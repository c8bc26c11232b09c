/-! Documents of nested values. Numbers keep the text they were written with, and objects keep all
their members in order, repeated ones too: what they mean is up to whoever reads the document. -/
namespace SemanticChecker

inductive Json where
  | null
  | bool (value : Bool)
  | number (text : String)
  /-- A text; nothing when it holds half of a surrogate pair and so is no text. -/
  | string (value : Option String)
  | array (items : List Json)
  | object (members : List (Option String × Json))

namespace Json

def text (value : String) : Json :=
  .string (some value)

def natural (value : Nat) : Json :=
  .number (toString value)

def record (members : List (String × Json)) : Json :=
  .object (members.map fun (key, value) => (some key, value))

def text? : Json → Option String
  | string value => value
  | _ => none

def bool? : Json → Option Bool
  | bool value => some value
  | _ => none

def items? : Json → Option (List Json)
  | array items => some items
  | _ => none

def get? (json : Json) (name : String) : Option Json :=
  match json with
  | object members => (members.find? fun (key, _) => key == some name).map (·.2)
  | _ => none

end Json

end SemanticChecker
