import SemanticChecker.Declared.Table

/-! The effective layout of a struct: what it inherits and what it declares itself, all in terms of
its own type parameters. -/
namespace SemanticChecker

structure ResolvedField where
  name : String
  type : Ty
  origin : StructId
  hasDefault : Bool
  span : Span

structure ResolvedMethod where
  name : String
  signature : Signature
  origin : StructId
  hasBody : Bool
  span : Span

structure Layout where
  id : StructId
  name : String
  fields : List ResolvedField := []
  methods : List ResolvedMethod := []
  /-- Every struct type that is composed, directly or through others. -/
  ancestors : List Ty := []
  /-- Whether values of the struct can be constructed. -/
  concrete : Bool := false

namespace Layout

def field? (layout : Layout) (name : String) : Option ResolvedField :=
  layout.fields.find? fun field => field.name == name

def method? (layout : Layout) (name : String) : Option ResolvedMethod :=
  layout.methods.find? fun method => method.name == name

def abstractMethods (layout : Layout) : List ResolvedMethod :=
  layout.methods.filter fun method => !method.hasBody

/-- How many leading fields a construction must supply: all up to the last one without a default. -/
def requiredArity (layout : Layout) : Nat :=
  (layout.fields.reverse.dropWhile fun field => field.hasDefault).length

end Layout

namespace StructDef

def ownFields (own : StructDef) : List ResolvedField :=
  own.shape.fields.map fun field =>
    ⟨field.name, field.type, own.id, field.hasDefault, field.span⟩

def ownMethods (own : StructDef) : List ResolvedMethod :=
  own.shape.methods.map fun method =>
    ⟨method.name, method.signature, own.id, method.hasBody, method.span⟩

def ownLayout (own : StructDef) : Layout :=
  { id := own.id, name := own.name, fields := own.ownFields, methods := own.ownMethods }

end StructDef

inductive Resolution where
  | resolved (layout : Layout)
  /-- Inherited methods are still without a body. -/
  | missingOverride (layout : Layout) (unmet : List String)
  /-- The struct composes itself through the members; its parents are left out. -/
  | cycle (members : List StructId) (fallback : Layout)

namespace Resolution

def layout : Resolution → Layout
  | resolved layout => layout
  | missingOverride layout _ => layout
  | cycle _ fallback => fallback

def isConcrete (resolution : Resolution) : Bool :=
  resolution.layout.concrete

end Resolution

inductive CompositionIssue where
  /-- At least one member; each composes the next, and the last composes the first. -/
  | cycle (members : List StructId)
  | duplicateField (owner : StructId) (field : String) (span : Span)
  | missingOverride (owner : StructId) (unmet : List String)
  | overrideMismatch (owner : StructId) (method : String) (expected found : Ty) (span : Span)
  | ambiguousMethod (owner : StructId) (method : String) (origins : List StructId)

namespace CompositionIssue

def code : CompositionIssue → DiagnosticCode
  | cycle _ => .compositionCycle
  | duplicateField .. => .duplicateField
  | missingOverride .. => .missingOverride
  | overrideMismatch .. => .typeMismatch
  | ambiguousMethod .. => .ambiguousMethod

def owner? : CompositionIssue → Option StructId
  | cycle members => members.head?
  | duplicateField owner _ _ => some owner
  | missingOverride owner _ => some owner
  | overrideMismatch owner _ _ _ _ => some owner
  | ambiguousMethod owner _ _ => some owner

def message (names : TypeNames) : CompositionIssue → String
  | cycle members =>
    "composition cycle: " ++ " -> ".intercalate ((members ++ members.take 1).map names.struct)
  | duplicateField owner field _ =>
    s!"struct '{names.struct owner}' has more than one member named '{field}'"
  | missingOverride owner unmet =>
    s!"struct '{names.struct owner}' must override abstract method(s): " ++ ", ".intercalate unmet
  | overrideMismatch owner method expected found _ =>
    s!"method '{method}' of struct '{names.struct owner}': " ++
      s!"expected {expected.describe names}, found {found.describe names}"
  | ambiguousMethod owner method origins =>
    s!"struct '{names.struct owner}' inherits '{method}' from " ++
      " and ".intercalate (origins.map names.struct) ++ "; override it to choose"

def diagnostic (table : DeclTable) (issue : CompositionIssue) : Diagnostic :=
  let owner := issue.owner? >>= table.struct?
  { code := issue.code
    message := issue.message table.names
    span := match issue with
      | duplicateField _ _ span => some span
      | overrideMismatch _ _ _ _ span => some span
      | _ => owner.map fun own => own.decl.span
    source := owner.map fun own => own.unit }

end CompositionIssue

end SemanticChecker
