import SemanticChecker.Declared.Lowering

/-! Collects the declarations of a program: names first, then aliases, then shapes and signatures unit
by unit. -/
namespace SemanticChecker

namespace Declarations

/-- Where a failed alias is reported: a cycle at its first member, anything else at the alias. -/
def anchor (declared : Declarations) (source : AliasSource) : ResolveError → AliasSource
  | .aliasCycle (first :: _) =>
    (declared.table.aliases.find? fun other => other.name == first).getD source
  | _ => source

/-- Resolves the aliases in the order of their declaration. Each broken chain is reported once. -/
def resolveEach (declared : Declarations) :
    List AliasSource → Lowering → Lowering × List Diagnostic
  | [], s => (s, [])
  | source :: rest, s =>
    let (result, s) := ((declared.table.resolveAlias source.name).run).run s
    let (s, more) := resolveEach declared rest s
    match result with
    | .ok _ => (s, more)
    | .error error =>
      let place := declared.anchor source error
      (s, (error.diagnostic place.span).inSource place.unit :: more)

def resolveAliases (declared : Declarations) : Declarations × Findings :=
  let (s, diagnostics) := declared.resolveEach declared.table.aliases { aliases := declared.aliases }
  ({ declared with aliases := s.aliases }, { pending := s.pending, diagnostics })

end Declarations

/-- The shapes and signatures of one unit, not yet entered. -/
structure LoweredUnit where
  unit : UnitId
  structs : List (StructId × StructShape) := []
  functions : List (FunctionId × Signature) := []
  enums : List (EnumId × Except EnumError EnumInfo) := []
  pending : List PendingBound := []
  diagnostics : List Diagnostic := []

namespace Declarations

/-- The parents that a struct names; what is no struct is reported. -/
def lowerParents (table : DeclTable) (scope : TypeScope) (name : String) :
    List TypeExpr → FindM (List ComposedParent)
  | [] => return []
  | parent :: rest => do
    match ← scope.lowerReported parent with
    | none => lowerParents table scope name rest
    | some (.struct id arguments) =>
      let first := { id, type := .struct id arguments, span := parent.span }
      return first :: (← lowerParents table scope name rest)
    | some other =>
      FindM.report
        { code := .typeMismatch
          message := s!"struct '{name}' can only compose structs, found {table.describe other}"
          span := some parent.span }
      lowerParents table scope name rest

def lowerFields (scope : TypeScope) : List FieldDecl → FindM (List FieldDef)
  | [] => return []
  | field :: rest => do
    let type ← scope.lowerOrError field.type
    let first := { name := field.name, type, hasDefault := field.default.isSome, span := field.span }
    return first :: (← lowerFields scope rest)

def lowerMethods (bounds : BoundTable) (scope : TypeScope) : List FunctionDecl → FindM (List MethodDef)
  | [] => return []
  | method :: rest => do
    let signature ← scope.lowerSignature bounds method
    let first := { name := method.name, signature, hasBody := method.body.isSome, span := method.span }
    return first :: (← lowerMethods bounds scope rest)

def lowerStruct (declared : Declarations) (bounds : BoundTable) (own : StructDef) : FindM StructShape := do
  let scope := declared.scope own.module []
  let typeParameters ← scope.declareParameters bounds [] own.decl.typeParameters
  let inner := scope.extend typeParameters
  let composes ← lowerParents declared.table inner own.name own.decl.composes
  let fields ← lowerFields inner own.decl.fields
  let methods ← lowerMethods bounds inner own.decl.methods
  return { typeParameters, composes, fields, methods }

/-- Reads the definition of an enumeration, if the type behind it is a primitive. What the type
mentions has no bounds to check. -/
def lowerEnum (declared : Declarations) (source : EnumSource) :
    FindM (Option (Except EnumError EnumInfo)) := do
  let before := (← get).pending
  let backing ← (declared.scope source.module []).lowerReported source.decl.backing
  modify fun s => { s with pending := before }
  match backing with
  | none => return none
  | some (.primitive kind) =>
    let definition : EnumDef :=
      { name := source.name, backing := kind, variants := source.decl.variants, span := source.decl.span }
    return some definition.validate
  | some other =>
    let found := declared.table.describe other
    FindM.report
      { code := .enumValueMismatch
        message := s!"enum '{source.name}' must be backed by a primitive type, found {found}"
        span := some source.decl.backing.span }
    return none

def lowerStructs (declared : Declarations) (bounds : BoundTable) :
    List StructDef → FindM (List (StructId × StructShape))
  | [] => return []
  | own :: rest => do
    let shape ← declared.lowerStruct bounds own
    return (own.id, shape) :: (← declared.lowerStructs bounds rest)

def lowerFunctions (declared : Declarations) (bounds : BoundTable) :
    List FunctionDef → FindM (List (FunctionId × Signature))
  | [] => return []
  | own :: rest => do
    let signature ← (declared.scope own.module []).lowerSignature bounds own.decl
    return (own.id, signature) :: (← declared.lowerFunctions bounds rest)

def lowerEnums (declared : Declarations) :
    List EnumSource → FindM (List (EnumId × Except EnumError EnumInfo))
  | [] => return []
  | source :: rest => do
    let read ← declared.lowerEnum source
    let more ← declared.lowerEnums rest
    match read with
    | some read => return (source.id, read) :: more
    | none => return more

/-- Gives meaning to everything declared under the number of a unit. -/
def lowerUnit (declared : Declarations) (bounds : BoundTable) (unit : UnitId) : LoweredUnit :=
  let table := declared.table
  let work : FindM LoweredUnit := do
    let structs ← declared.lowerStructs bounds (table.structs.filter (·.unit == unit))
    let functions ← declared.lowerFunctions bounds (table.functions.filter (·.unit == unit))
    let enums ← declared.lowerEnums (table.enums.filter (·.unit == unit))
    return { unit, structs, functions, enums }
  let (lowered, found) := work.run {}
  { lowered with
    pending := found.pending
    diagnostics := found.diagnostics.map (·.inSource unit) }

def installEnums (unit : UnitId) (enums : EnumRegistry) :
    List (EnumId × Except EnumError EnumInfo) → EnumRegistry × List Diagnostic
  | [] => (enums, [])
  | (id, read) :: rest =>
    let (refused, enums) := enums.install id read
    let (enums, more) := installEnums unit enums rest
    match refused with
    | some error => (enums, error.diagnostic.inSource unit :: more)
    | none => (enums, more)

/-- Enters the shapes and signatures of a unit; enumerations that were refused are reported. -/
def install (declared : Declarations) (lowered : LoweredUnit) : Declarations × List Diagnostic :=
  let table := lowered.structs.foldl (fun table (id, shape) => table.setShape id shape) declared.table
  let table := lowered.functions.foldl (fun table (id, signature) => table.setSignature id signature) table
  let (enums, reports) := installEnums lowered.unit declared.enums lowered.enums
  ({ declared with table, enums }, reports)

def declareUnits (declared : Declarations) : List SourceUnit → Declarations × List (List Diagnostic)
  | [] => (declared, [])
  | unit :: rest =>
    let (declared, reports) := declared.declareUnit unit
    let (declared, more) := declared.declareUnits rest
    (declared, reports :: more)

def installAll (declared : Declarations) : List LoweredUnit → Declarations × List (List Diagnostic)
  | [] => (declared, [])
  | lowered :: rest =>
    let (declared, reports) := declared.install lowered
    let (declared, more) := declared.installAll rest
    (declared, reports :: more)

end Declarations

/-- What collecting a program gives: the declarations, and what each step reported. -/
structure Collected where
  declared : Declarations
  clashes : List (List Diagnostic)
  aliases : Findings
  /-- The units with what giving them meaning reported, and what entering them reported. -/
  units : List (LoweredUnit × List Diagnostic)

/-- Collects the declarations of a program. Every unit is given its meaning before any is entered. -/
def Collected.ofUnits (bounds : BoundTable) (units : List SourceUnit) : Collected :=
  let (named, clashes) := Declarations.declareUnits {} units
  let (resolved, aliases) := named.resolveAliases
  let lowered := units.map fun unit => resolved.lowerUnit bounds unit.id
  let (declared, installed) := resolved.installAll lowered
  { declared, clashes, aliases, units := lowered.zip installed }

namespace Collected

/-- The struct applications whose bounds are still to be checked: of aliases first, then of the units. -/
def pending (collected : Collected) : List PendingBound :=
  collected.aliases.pending ++ collected.units.flatMap fun (lowered, _) => lowered.pending

def diagnostics (collected : Collected) : List Diagnostic :=
  collected.clashes.flatten ++ collected.aliases.diagnostics ++
    collected.units.flatMap fun (lowered, installed) => lowered.diagnostics ++ installed

end Collected

end SemanticChecker
