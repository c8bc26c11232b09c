import SemanticChecker.Composition.Layout

/-! Merges the layouts of a struct's parents, in the order they are named, and then what the struct
declares itself. A member that is inherited twice from one origin counts once. -/
namespace SemanticChecker

structure Merge where
  fields : List ResolvedField := []
  methods : List ResolvedMethod := []
  ancestors : List Ty := []
  /-- Methods with bodies from more than one origin. -/
  ambiguous : List (String × List StructId) := []
  issues : List CompositionIssue := []

namespace Merge

def report (m : Merge) (issue : CompositionIssue) : Merge :=
  { m with issues := m.issues ++ [issue] }

def addAncestor (m : Merge) (ancestor : Ty) : Merge :=
  if ancestor ∈ m.ancestors then m else { m with ancestors := m.ancestors ++ [ancestor] }

def replaceMethod (m : Merge) (method : ResolvedMethod) : Merge :=
  let index := m.methods.findIdx fun other => other.name == method.name
  { m with methods := m.methods.set index method }

/-- Notes one more origin of a method that is already there with a body. -/
def addOrigin (m : Merge) (name : String) (existing incoming : StructId) : Merge :=
  if m.ambiguous.any fun (other, _) => other == name then
    { m with ambiguous := m.ambiguous.map fun (other, origins) =>
        if other == name then (other, origins ++ [incoming]) else (other, origins) }
  else { m with ambiguous := m.ambiguous ++ [(name, [existing, incoming])] }

def inheritField (owner : StructId) (span : Span) (m : Merge) (field : ResolvedField) : Merge :=
  match m.fields.find? fun existing => existing.name == field.name with
  | none => { m with fields := m.fields ++ [field] }
  | some existing =>
    if existing.origin = field.origin ∧ existing.type = field.type then m
    else m.report (.duplicateField owner field.name span)

/-- Of two methods of one name, one with a body takes the place of one without. -/
def inheritMethod (owner : StructId) (span : Span) (m : Merge) (incoming : ResolvedMethod) : Merge :=
  match m.methods.find? fun existing => existing.name == incoming.name with
  | none => { m with methods := m.methods ++ [incoming] }
  | some existing =>
    if existing.origin = incoming.origin then m
    else
      match existing.hasBody, incoming.hasBody with
      | false, false => m
      | true, true => m.addOrigin incoming.name existing.origin incoming.origin
      | _, takesPlace =>
        let m := if existing.signature.type = incoming.signature.type then m
          else m.report (.overrideMismatch owner incoming.name existing.signature.type
            incoming.signature.type span)
        if takesPlace then m.replaceMethod incoming else m

/-- What a parent's type parameters stand for where it is composed. -/
def parentInstantiation (table : DeclTable) : Ty → Instantiation
  | .struct id arguments =>
    match table.struct? id with
    | some parent => parent.instantiation arguments
    | none => []
  | _ => []

def parentSpan (own : StructDef) (type : Ty) : Span :=
  match own.shape.composes.find? fun parent => parent.type == type with
  | some parent => parent.span
  | none => own.decl.span

def inherit (table : DeclTable) (own : StructDef) (m : Merge) (parent : Ty × Layout) : Merge :=
  let (type, layout) := parent
  let σ := parentInstantiation table type
  let span := parentSpan own type
  let m := m.addAncestor type
  let m := layout.ancestors.foldl (fun m ancestor => m.addAncestor (ancestor.instantiate σ)) m
  let m := layout.fields.foldl
    (fun m field => m.inheritField own.id span { field with type := field.type.instantiate σ }) m
  layout.methods.foldl
    (fun m method => m.inheritMethod own.id span
      { method with signature := method.signature.instantiate σ }) m

def addOwnField (owner : StructId) (m : Merge) (field : ResolvedField) : Merge :=
  if m.fields.any fun existing => existing.name == field.name then
    m.report (.duplicateField owner field.name field.span)
  else { m with fields := m.fields ++ [field] }

/-- A method of the struct itself settles what was ambiguous and takes the place of what was inherited. -/
def overrideMethod (owner : StructId) (m : Merge) (method : ResolvedMethod) : Merge :=
  let m := { m with ambiguous := m.ambiguous.filter fun (name, _) => name != method.name }
  match m.methods.find? fun inherited => inherited.name == method.name with
  | none => { m with methods := m.methods ++ [method] }
  | some inherited =>
    let m := if inherited.signature.type = method.signature.type then m
      else m.report (.overrideMismatch owner method.name inherited.signature.type
        method.signature.type method.span)
    m.replaceMethod method

/-- The struct's own methods; `declared` are the names of those before. -/
def addOwnMethods (owner : StructId) (declared : List String) (m : Merge) :
    List ResolvedMethod → Merge
  | [] => m
  | method :: rest =>
    let isTaken := declared.contains method.name || m.fields.any fun field => field.name == method.name
    let m := if isTaken then m.report (.duplicateField owner method.name method.span)
      else m.overrideMethod owner method
    m.addOwnMethods owner (method.name :: declared) rest

def reportAmbiguous (owner : StructId) (m : Merge) : Merge :=
  m.ambiguous.foldl (fun m (method, origins) => m.report (.ambiguousMethod owner method origins)) m

def unmet (names : TypeNames) (owner : StructId) (m : Merge) : List String :=
  (m.methods.filter fun method => !method.hasBody && method.origin != owner).map fun method =>
    method.signature.render names method.name

end Merge

namespace StructDef

def mergeMembers (table : DeclTable) (own : StructDef) (parents : List (Ty × Layout)) : Merge :=
  let m := parents.foldl (Merge.inherit table own) {}
  let m := own.ownFields.foldl (Merge.addOwnField own.id) m
  let m := m.addOwnMethods own.id [] own.ownMethods
  m.reportAmbiguous own.id

/-- Composes a struct from the layouts of its parents. A struct some of whose parents are left out is
never concrete. -/
def compose (table : DeclTable) (own : StructDef) (parents : List (Ty × Layout)) (tainted : Bool) :
    Resolution × List CompositionIssue :=
  let m := own.mergeMembers table parents
  let layout : Layout :=
    { id := own.id, name := own.name, fields := m.fields, methods := m.methods
      ancestors := m.ancestors
      concrete := !tainted && m.methods.all fun method => method.hasBody }
  match m.unmet table.names own.id with
  | [] => (.resolved layout, m.issues)
  | unmet => (.missingOverride layout unmet, m.issues ++ [.missingOverride own.id unmet])

end StructDef

end SemanticChecker
