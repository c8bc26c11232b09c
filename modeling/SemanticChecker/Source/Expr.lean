import SemanticChecker.Source.TypeExpr

/-! The bodies of functions: literals, operators, expressions and statements. -/
namespace SemanticChecker

inductive Literal where
  | integer (value : Int)
  | float (value : Float)
  | string (value : String)
  | boolean (value : Bool)
  | none

inductive Operator where
  | add | subtract | multiply | divide | modulo
  | equal | notEqual
  | greater | greaterEqual | less | lessEqual
  | and | or
  deriving DecidableEq, Repr

namespace Operator

def all : List Operator :=
  [add, subtract, multiply, divide, modulo, equal, notEqual, greater, greaterEqual, less, lessEqual, and, or]

def name : Operator → String
  | add => "Add"
  | subtract => "Subtract"
  | multiply => "Multiply"
  | divide => "Divide"
  | modulo => "Modulo"
  | equal => "Equal"
  | notEqual => "NotEqual"
  | greater => "Greater"
  | greaterEqual => "GreaterEqual"
  | less => "Less"
  | lessEqual => "LessEqual"
  | and => "And"
  | or => "Or"

def ofName? (text : String) : Option Operator :=
  all.find? fun operator => operator.name == text

def symbol : Operator → String
  | add => "+"
  | subtract => "-"
  | multiply => "*"
  | divide => "/"
  | modulo => "%"
  | equal => "=="
  | notEqual => "!="
  | greater => ">"
  | greaterEqual => ">="
  | less => "<"
  | lessEqual => "<="
  | and => "and"
  | or => "or"

def isArithmetic : Operator → Bool
  | add | subtract | multiply | divide | modulo => true
  | _ => false

def isOrdering : Operator → Bool
  | greater | greaterEqual | less | lessEqual => true
  | _ => false

def isEquality : Operator → Bool
  | equal | notEqual => true
  | _ => false

def isLogical : Operator → Bool
  | and | or => true
  | _ => false

end Operator

mutual

inductive Expr where
  | mk (kind : ExprKind) (span : Span)

inductive ExprKind where
  | literal (value : Literal)
  | tuple (items : List Expr)
  | list (items : List Expr)
  | dict (entries : List (Expr × Expr))
  | ident (name : String)
  | assign (target value : Expr)
  | call (callee : Expr) (typeArguments : List TypeExpr) (arguments : List Expr)
  | field (object : Expr) (name : String)
  | binary (operator : Operator) (left right : Expr)
  /-- A conditional; each branch is a list of statements. -/
  | cond (condition : Expr) (thenBranch : List Statement) (elseBranch : Option (List Statement))

inductive Statement where
  /-- Declares a name, with the type written for it and its first value, if any. -/
  | bind (name : String) (type : Option TypeExpr) (initializer : Option Expr) (span : Span)
  | expression (value : Expr)
  | ret (value : Option Expr) (span : Span)

end

abbrev Block := List Statement

namespace Expr

def kind : Expr → ExprKind
  | ⟨kind, _⟩ => kind

def span : Expr → Span
  | ⟨_, span⟩ => span

def isNone : Expr → Bool
  | ⟨.literal .none, _⟩ => true
  | _ => false

def isLiteral : Expr → Bool
  | ⟨.literal _, _⟩ => true
  | _ => false

def name? : Expr → Option String
  | ⟨.ident name, _⟩ => some name
  | _ => none

end Expr

/-- The expression whose value a block produces: its last statement, if that is an expression. -/
def Block.tail? (block : Block) : Option Expr :=
  match block.getLast? with
  | some (.expression value) => some value
  | _ => none

def Block.tailSpan (block : Block) (otherwise : Span) : Span :=
  match block.tail? with
  | some value => value.span
  | none => otherwise

end SemanticChecker
