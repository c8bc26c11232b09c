import SemanticChecker.Check.Program

/-! Questions about a checked program, by qualified name. -/
namespace SemanticChecker

inductive QueryError where
  | notFound (name : String)
  | notAType (name : String)
  | unresolved (name : String)
  deriving DecidableEq, Repr

def QueryError.message : QueryError → String
  | notFound name => s!"no type named '{name}'"
  | notAType name => s!"'{name}' names a function, not a type"
  | unresolved name => s!"'{name}' did not resolve to a valid type"

namespace CheckReport

def table (report : CheckReport) : DeclTable :=
  report.context.table

def aliasedType (report : CheckReport) (name : String) : Except QueryError Ty :=
  let aliases := report.context.declared.aliases
  if aliases.contains name then .ok ((aliases.type? name).getD .error) else .error (.notFound name)

/-- What a name stands for as a type; the error type where its declaration has no meaning. -/
def namedType (report : CheckReport) (name : String) : Except QueryError Ty :=
  match Primitive.ofName? name, report.table.lookup name with
  | some kind, _ => .ok (.primitive kind)
  | none, some (.struct id) =>
    match report.table.struct? id with
    | some own => .ok own.selfType
    | none => .ok .error
  | none, some (.enum id) => .ok (.enum id)
  | none, some (.function _) => .error (.notAType name)
  | none, some .typeAlias => report.aliasedType name
  | none, none => report.aliasedType name

def resolveType (report : CheckReport) (name : String) : Except QueryError Ty := do
  let t ← report.namedType name
  if t.isError then throw (.unresolved name)
  return t

def resolution? (report : CheckReport) (name : String) : Option Resolution :=
  match report.table.lookup name with
  | some (.struct id) => report.context.compositions.find? id
  | _ => none

def resolveStruct (report : CheckReport) (name : String) : Except QueryError Layout :=
  match report.table.lookup name with
  | some (.struct id) =>
    match report.context.layout? id with
    | some layout => .ok layout
    | none => .error (.unresolved name)
  | _ => .error (.notFound name)

end CheckReport

end SemanticChecker
