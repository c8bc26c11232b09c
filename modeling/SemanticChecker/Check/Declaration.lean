import SemanticChecker.Check.Body

/-! Checks the bodies that a declaration holds: the body of a function, and the defaults and methods
of a struct. -/
namespace SemanticChecker

namespace CheckM

/-- Marks everything that is reported on the way with the unit it is in. -/
def inSource (unit : UnitId) (check : CheckM α) : CheckM α := do
  let before := (← get).diagnostics
  modify fun s => { s with diagnostics := [] }
  let answer ← check
  modify fun s =>
    { s with diagnostics := before ++ s.diagnostics.map fun d => d.inSource unit }
  return answer

end CheckM

namespace BodyContext

/-- The names in scope at the start of a body; of two parameters of one name the later counts. -/
def startEnv (receiver : Option Ty) (signature : Signature) : Env :=
  signature.params.reverse ++ receiver.toList.map fun t => ("self", t)

def startParameters (receiver : Option Ty) (decl : FunctionDecl) : List (String × Span) :=
  receiver.toList.map (fun _ => ("self", decl.span)) ++
    decl.parameters.map fun parameter => (parameter.name, parameter.span)

def checkFunction (body : BodyContext) (decl : FunctionDecl) (signature : Signature)
    (receiver : Option Ty) : CheckM (Option TypedBlock) := do
  match decl.body with
  | none => return none
  | some block =>
    let body := { body with result := signature.result }
    let typed ← body.checkFunctionBody (startEnv receiver signature) (startParameters receiver decl)
      decl.name decl.span block
    return some typed

def checkDefault (body : BodyContext) (field : FieldDef) (value : Expr) : CheckM TypedExpr := do
  let typed ← body.checkExpr [] (.value (some field.type)) value
  body.expectAssignable (.fieldDefault field.name) field.type typed.type value.span
  return typed

def checkDefaults (body : BodyContext) :
    List (FieldDecl × FieldDef) → CheckM (List (String × TypedExpr))
  | [] => return []
  | (decl, field) :: rest => do
    match decl.default with
    | none => body.checkDefaults rest
    | some value =>
      let typed ← body.checkDefault field value
      return (field.name, typed) :: (← body.checkDefaults rest)

/-- The methods of a struct; its type parameters are in scope in them. -/
def checkMethods (body : BodyContext) (own : StructDef) :
    List (FunctionDecl × MethodDef) → CheckM (List TypedFunction)
  | [] => return []
  | (decl, method) :: rest => do
    let signature := method.signature
    let inner := { body with typeParameters := own.typeParameters ++ signature.typeParameters }
    let block ← inner.checkFunction decl signature (some own.selfType)
    let typed : TypedFunction :=
      { name := method.name
        owner := some (body.program.structRef own.id)
        typeParameters := signature.typeParameters
        params := signature.params
        returns := signature.returns
        body := block
        generic := !own.typeParameters.isEmpty || signature.isGeneric
        span := method.span }
    return typed :: (← body.checkMethods own rest)

end BodyContext

/-- Gives every default to the first field of its name that the struct declares. Of two defaults for
one name the later counts. -/
def placeDefaults (own : StructId) : List ResolvedField → List (String × TypedExpr) → List TypedField
  | [], _ => []
  | field :: rest, defaults =>
    if field.origin = own then
      let left := defaults.filter fun (name, _) => name != field.name
      ⟨field.name, field.type, field.origin, defaults.reverse.lookup field.name⟩ ::
        placeDefaults own rest left
    else ⟨field.name, field.type, field.origin, none⟩ :: placeDefaults own rest defaults

namespace CheckContext

def checkFunction (ctx : CheckContext) (own : FunctionDef) : CheckM TypedFunction :=
  CheckM.inSource own.unit do
    let signature := own.signature
    let body : BodyContext :=
      { program := ctx, module := own.module, typeParameters := signature.typeParameters }
    let block ← body.checkFunction own.decl signature none
    return { name := own.name
             typeParameters := signature.typeParameters
             params := signature.params
             returns := signature.returns
             body := block
             generic := signature.isGeneric
             span := own.decl.span }

def checkStruct (ctx : CheckContext) (own : StructDef) : CheckM TypedStruct :=
  CheckM.inSource own.unit do
    let body : BodyContext :=
      { program := ctx, module := own.module, typeParameters := own.typeParameters }
    let defaults ← body.checkDefaults (own.decl.fields.zip own.shape.fields)
    let methods ← body.checkMethods own (own.decl.methods.zip own.shape.methods)
    let fields := match ctx.layout? own.id with
      | some layout => layout.fields
      | none => []
    return { name := own.name
             reference := ctx.structRef own.id
             type := own.selfType
             typeParameters := own.typeParameters
             fields := placeDefaults own.id fields defaults
             methods }

def checkStructs (ctx : CheckContext) : List StructDef → CheckM (List TypedStruct)
  | [] => return []
  | own :: rest => do
    let first ← ctx.checkStruct own
    return first :: (← ctx.checkStructs rest)

def checkFunctions (ctx : CheckContext) : List FunctionDef → CheckM (List TypedFunction)
  | [] => return []
  | own :: rest => do
    let first ← ctx.checkFunction own
    return first :: (← ctx.checkFunctions rest)

def typedEnums (ctx : CheckContext) : List TypedEnum :=
  ctx.table.enums.filterMap fun source =>
    (ctx.declared.enums.get? source.id).map fun info =>
      { id := source.id, name := source.name, backing := info.backing, variants := info.variants }

/-- All bodies, those of structs first; slots are numbered through all of them. -/
def checkBodies (ctx : CheckContext) : CheckM TypedProgram := do
  let structs ← ctx.checkStructs ctx.table.structs
  let functions ← ctx.checkFunctions ctx.table.functions
  return { structs, enums := ctx.typedEnums, functions }

end CheckContext

end SemanticChecker
