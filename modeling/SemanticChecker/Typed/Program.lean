import SemanticChecker.Enumeration
import SemanticChecker.Source.Expr
import SemanticChecker.Ty.Basic

/-! The typed program: the bodies with a type on every expression, and every name resolved to what it
stands for. -/
namespace SemanticChecker

/-- A struct and whether values of it can be constructed. -/
structure StructRef where
  id : StructId
  concrete : Bool
  deriving DecidableEq, Repr

mutual

inductive TypedExpr where
  | mk (kind : TypedExprKind) (type : Ty) (span : Span)

inductive TypedExprKind where
  | literal (value : Literal)
  | enumVariant (id : EnumId) (variant : String) (index : Nat)
  | tuple (items : List TypedExpr)
  | list (items : List TypedExpr)
  | dict (entries : List (TypedExpr × TypedExpr))
  | ident (name : String)
  | functionRef (id : FunctionId)
  | assign (target value : TypedExpr)
  | call (callee : Callee) (typeArguments : List Ty) (arguments : List TypedExpr)
  | field (object : TypedExpr) (name : String)
  | tupleSlot (tuple : TypedExpr) (index : Nat)
  | binary (operator : Operator) (left right : TypedExpr)
  | cond (condition : TypedExpr) (thenBranch : TypedBlock) (elseBranch : Option TypedBlock)

inductive Callee where
  | function (id : FunctionId)
  /-- A method, with the struct whose body implements it. -/
  | method (receiver : TypedExpr) (origin : StructId) (name : String)
  | builtin (receiver : TypedExpr) (name : String)
  /-- A method that a type parameter has through its bound. -/
  | boundMethod (receiver : TypedExpr) (name : String)
  | construct (reference : StructRef)
  | value (value : TypedExpr)

inductive TypedStatement where
  | bind (name : String) (type : Ty) (initializer : Option TypedExpr) (span : Span)
  | expression (value : TypedExpr)
  | ret (value : Option TypedExpr) (span : Span)

/-- Statements, the type of the value they produce, and whether every way through them returns. -/
inductive TypedBlock where
  | mk (statements : List TypedStatement) (type : Ty) (diverges : Bool)

end

namespace TypedExpr

def kind : TypedExpr → TypedExprKind
  | ⟨kind, _, _⟩ => kind

def type : TypedExpr → Ty
  | ⟨_, type, _⟩ => type

def span : TypedExpr → Span
  | ⟨_, _, span⟩ => span

end TypedExpr

namespace TypedBlock

def statements : TypedBlock → List TypedStatement
  | ⟨statements, _, _⟩ => statements

def type : TypedBlock → Ty
  | ⟨_, type, _⟩ => type

def diverges : TypedBlock → Bool
  | ⟨_, _, diverges⟩ => diverges

end TypedBlock

/-- Whether every way through a statement returns: a return does, and a conditional both of whose
branches do. -/
def TypedStatement.diverges : TypedStatement → Bool
  | .ret _ _ => true
  | .expression ⟨.cond _ thenBranch (some elseBranch), _, _⟩ =>
    thenBranch.diverges && elseBranch.diverges
  | _ => false

structure TypedField where
  name : String
  type : Ty
  origin : StructId
  /-- Only on the struct that declares the field. -/
  default : Option TypedExpr := none

structure TypedFunction where
  name : String
  owner : Option StructRef := none
  typeParameters : List Ty
  params : List (String × Ty)
  returns : List Ty
  body : Option TypedBlock
  /-- Whether type parameters, its own or its struct's, are in scope. -/
  generic : Bool
  span : Span

structure TypedStruct where
  name : String
  reference : StructRef
  type : Ty
  typeParameters : List Ty
  fields : List TypedField
  methods : List TypedFunction

structure TypedEnum where
  id : EnumId
  name : String
  backing : Primitive
  variants : List EnumVariant

def TypedEnum.type (typed : TypedEnum) : Ty :=
  .enum typed.id

structure TypedProgram where
  structs : List TypedStruct := []
  enums : List TypedEnum := []
  functions : List TypedFunction := []

namespace TypedProgram

def function? (program : TypedProgram) (name : String) : Option TypedFunction :=
  program.functions.find? fun function => function.name == name

def struct? (program : TypedProgram) (name : String) : Option TypedStruct :=
  program.structs.find? fun struct => struct.name == name

end TypedProgram

end SemanticChecker
