import SemanticChecker.Alias
import SemanticChecker.Declared.Signature
import SemanticChecker.Enumeration.Registry

/-! What a program declares, by qualified name. A name is entered before anything about it is known;
the shape of a struct and the signature of a function are filled in later. -/
namespace SemanticChecker

inductive Symbol where
  | struct (id : StructId)
  | enum (id : EnumId)
  | function (id : FunctionId)
  | typeAlias
  deriving DecidableEq, Repr

/-- A struct named in a composition list, with its arguments. -/
structure ComposedParent where
  id : StructId
  type : Ty
  span : Span

structure FieldDef where
  name : String
  type : Ty
  hasDefault : Bool
  span : Span

structure MethodDef where
  name : String
  signature : Signature
  hasBody : Bool
  span : Span

/-- What a struct declares itself, parents apart. -/
structure StructShape where
  typeParameters : List Ty := []
  composes : List ComposedParent := []
  fields : List FieldDef := []
  methods : List MethodDef := []

structure StructDef where
  id : StructId
  name : String
  unit : UnitId
  module : ModulePath
  decl : StructDecl
  shape : StructShape := {}

namespace StructDef

def typeParameters (own : StructDef) : List Ty :=
  own.shape.typeParameters

def selfType (own : StructDef) : Ty :=
  .struct own.id own.typeParameters

/-- What the type parameters stand for when the struct is applied to arguments. -/
def instantiation (own : StructDef) (arguments : List Ty) : Instantiation :=
  Instantiation.ofArguments own.typeParameters arguments

end StructDef

structure FunctionDef where
  id : FunctionId
  name : String
  unit : UnitId
  module : ModulePath
  decl : FunctionDecl
  signature : Signature := {}

structure EnumSource where
  id : EnumId
  name : String
  unit : UnitId
  module : ModulePath
  decl : EnumDecl

structure AliasSource where
  name : String
  unit : UnitId
  span : Span

structure DeclTable where
  /-- Names in the order they were entered; no name is entered twice. -/
  symbols : List (String × Symbol) := []
  units : List UnitId := []
  structs : List StructDef := []
  functions : List FunctionDef := []
  enums : List EnumSource := []
  aliases : List AliasSource := []

namespace DeclTable

def lookup (table : DeclTable) (name : String) : Option Symbol :=
  table.symbols.lookup name

def contains (table : DeclTable) (name : String) : Bool :=
  (table.lookup name).isSome

/-- What a name written inside a module stands for: a name of the module first, else a qualified name. -/
def resolveName (table : DeclTable) (module : ModulePath) (name : String) : Option (String × Symbol) :=
  (module.candidates name).findSome? fun candidate =>
    (table.lookup candidate).map fun symbol => (candidate, symbol)

def struct? (table : DeclTable) (id : StructId) : Option StructDef :=
  table.structs[id.index]?

def function? (table : DeclTable) (id : FunctionId) : Option FunctionDef :=
  table.functions[id.index]?

def enum? (table : DeclTable) (id : EnumId) : Option EnumSource :=
  table.enums[id.index]?

def names (table : DeclTable) : TypeNames where
  struct id := match table.struct? id with
    | some own => own.name
    | none => s!"<struct {id.index}>"
  enum id := match table.enum? id with
    | some source => source.name
    | none => s!"<enum {id.index}>"

def describe (table : DeclTable) (t : Ty) : String :=
  t.describe table.names

def setShape (table : DeclTable) (id : StructId) (shape : StructShape) : DeclTable :=
  { table with structs := table.structs.modify id.index fun own => { own with shape } }

def setSignature (table : DeclTable) (id : FunctionId) (signature : Signature) : DeclTable :=
  { table with functions := table.functions.modify id.index fun own => { own with signature } }

end DeclTable

/-- Everything the declarations of a program tell: the table of names, the aliases and the
enumerations. -/
structure Declarations where
  table : DeclTable := {}
  aliases : AliasTable := .standard
  enums : EnumRegistry := {}

namespace Declarations

def enter (declared : Declarations) (unit : SourceUnit) (name : String) :
    Declaration → Declarations
  | .struct decl =>
    let table := declared.table
    let id : StructId := ⟨table.structs.length⟩
    let entry : StructDef := { id, name, unit := unit.id, module := unit.module, decl }
    { declared with table := { table with
        symbols := table.symbols ++ [(name, .struct id)]
        structs := table.structs ++ [entry] } }
  | .enum decl =>
    let table := declared.table
    let (id, enums) := declared.enums.reserve
    let entry : EnumSource := { id, name, unit := unit.id, module := unit.module, decl }
    { declared with
      enums
      table := { table with
        symbols := table.symbols ++ [(name, .enum id)]
        enums := table.enums ++ [entry] } }
  | .function decl =>
    let table := declared.table
    let id : FunctionId := ⟨table.functions.length⟩
    let entry : FunctionDef := { id, name, unit := unit.id, module := unit.module, decl }
    { declared with table := { table with
        symbols := table.symbols ++ [(name, .function id)]
        functions := table.functions ++ [entry] } }
  | .typeAlias decl =>
    let table := declared.table
    let entry : AliasSource := { name, unit := unit.id, span := decl.span }
    { declared with
      aliases := declared.aliases.set name (.pending (.expression decl.target unit.module))
      table := { table with
        symbols := table.symbols ++ [(name, .typeAlias)]
        aliases := table.aliases ++ [entry] } }

inductive NameClash where
  | declaredTwice (name : String)
  | builtin (name : String)
  deriving DecidableEq, Repr

def NameClash.message : NameClash → String
  | declaredTwice name => s!"'{name}' is declared more than once"
  | builtin name => s!"'{name}' is a built-in type and cannot be redeclared"

def clash? (declared : Declarations) (name : String) : Option NameClash :=
  if declared.table.contains name then some (.declaredTwice name)
  else if declared.aliases.contains name || (Primitive.ofName? name).isSome then some (.builtin name)
  else none

/-- Declares one name of a unit; a name that clashes is reported and passed over. -/
def declare (unit : SourceUnit) (declared : Declarations) (declaration : Declaration) :
    Declarations × List Diagnostic :=
  let name := unit.module.qualify declaration.name
  match declared.clash? name with
  | some clash =>
    let report : Diagnostic :=
      { code := .duplicateDeclaration, message := clash.message, span := some declaration.span }
    (declared, [report.inSource unit.id])
  | none => (declared.enter unit name declaration, [])

def declareAll (unit : SourceUnit) (declared : Declarations) :
    List Declaration → Declarations × List Diagnostic
  | [] => (declared, [])
  | declaration :: rest =>
    let (declared, reports) := declare unit declared declaration
    let (declared, more) := declareAll unit declared rest
    (declared, reports ++ more)

def declareUnit (declared : Declarations) (unit : SourceUnit) : Declarations × List Diagnostic :=
  let table := declared.table
  let declared := { declared with table := { table with units := table.units ++ [unit.id] } }
  declareAll unit declared unit.declarations

end Declarations

end SemanticChecker
