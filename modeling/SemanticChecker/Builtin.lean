import SemanticChecker.Ty.Basic

/-! The methods that lists, dictionaries and strings come with. Only their types are known here. -/
namespace SemanticChecker

inductive BuiltinReceiver where
  | list | dict | str
  deriving DecidableEq, Repr

/-- A place in a built-in signature, filled in from the receiver. -/
inductive BuiltinSlot where
  | element
  | key
  | value
  | primitive (kind : Primitive)
  deriving DecidableEq, Repr

structure BuiltinMethod where
  receiver : BuiltinReceiver
  name : String
  parameters : List BuiltinSlot
  returns : List BuiltinSlot
  deriving DecidableEq, Repr

namespace BuiltinMethod

def all : List BuiltinMethod :=
  [⟨.list, "len", [], [.primitive .int64]⟩,
    ⟨.list, "get", [.primitive .int64], [.element]⟩,
    ⟨.list, "push", [.element], []⟩,
    ⟨.dict, "len", [], [.primitive .int64]⟩,
    ⟨.dict, "get", [.key], [.value]⟩,
    ⟨.dict, "insert", [.key, .value], []⟩,
    ⟨.dict, "contains", [.key], [.primitive .bool]⟩,
    ⟨.str, "len", [], [.primitive .int64]⟩]

def find? (receiver : BuiltinReceiver) (name : String) : Option BuiltinMethod :=
  all.find? fun method => method.receiver == receiver && method.name == name

end BuiltinMethod

/-- The receiver a type is, with what fills the places of its signatures. -/
def Ty.builtinReceiver? : Ty → Option (BuiltinReceiver × (BuiltinSlot → Ty))
  | .list element => some (.list, fun
      | .element => element
      | .primitive kind => .primitive kind
      | _ => .error)
  | .dict key value => some (.dict, fun
      | .key => key
      | .value => value
      | .primitive kind => .primitive kind
      | _ => .error)
  | .primitive .str => some (.str, fun
      | .primitive kind => .primitive kind
      | _ => .error)
  | _ => none

def Ty.builtinMethod? (receiver : Ty) (name : String) : Option Ty := do
  let (kind, fill) ← receiver.builtinReceiver?
  let method ← BuiltinMethod.find? kind name
  some (.function (method.parameters.map fill) (method.returns.map fill))

end SemanticChecker
