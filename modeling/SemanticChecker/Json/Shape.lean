import SemanticChecker.Json.Value

/-! The shapes a value can be read from. A record is an object, or an array of its fields in order;
one case of several is an object with one member, named for the case. -/
namespace SemanticChecker

abbrev Members := List (String × Json)

namespace Json

/-- The known members of an object; others are passed over. Nothing when a known one is repeated or a
key is no text. -/
def knownMembers? (names : List String) : List (Option String × Json) → Option Members
  | [] => some []
  | (none, _) :: _ => none
  | (some key, value) :: rest => do
    let members ← knownMembers? names rest
    if key ∈ names then
      if members.any fun (name, _) => name == key then none else some ((key, value) :: members)
    else some members

def members? (names : List String) : Json → Option Members
  | object members => knownMembers? names members
  | array items => if items.length ≤ names.length then some (names.zip items) else none
  | _ => none

def tagged? : Json → Option (String × Json)
  | object [(some tag, payload)] => some (tag, payload)
  | _ => none

/-- The name of a case that holds nothing: a bare text, or an object whose one member is null. -/
def bareTag? (depth : Nat) : Json → Option String
  | string tag => tag
  | object [(tag, .null)] => if 0 < depth then tag else none
  | _ => none

end Json

namespace Members

def field? (members : Members) (name : String) : Option Json :=
  (members.find? fun (key, _) => key == name).map (·.2)

def required (members : Members) (name : String) (read : Json → Option α) : Option α :=
  members.field? name >>= read

def defaulted (members : Members) (name : String) (otherwise : α) (read : Json → Option α) : Option α :=
  match members.field? name with
  | none => some otherwise
  | some json => read json

def optional (members : Members) (name : String) (read : Json → Option α) : Option (Option α) :=
  match members.field? name with
  | none => some none
  | some .null => some none
  | some json => (read json).map some

end Members

end SemanticChecker
