import SemanticChecker.Flow.NoneState
import SemanticChecker.Source.Expr

/-! What a body does when it runs, as far as None is concerned. Statements run in order, a conditional
takes either branch unless its condition compares a local with None, and a return ends the run. All
executions of a body are listed, each as its uses of locals in order. -/
namespace SemanticChecker

/-- The names in scope, the innermost first, and whether each holds None or nothing at all. -/
abbrev Locals := List (String × Bool)

namespace Locals

def give (locals : Locals) (name : String) (isNone : Bool) : Locals :=
  match locals with
  | [] => []
  | (key, held) :: rest =>
    if name == key then (key, isNone) :: rest else (key, held) :: give rest name isNone

def outermost (locals : Locals) (count : Nat) : Locals :=
  locals.drop (locals.length - count)

end Locals

structure LocalUse where
  name : String
  kind : UseKind
  span : Span
  isNone : Bool
  deriving DecidableEq, Repr

/-- How a part of a body ends: by a return, or with a value and the locals that go on. -/
inductive Outcome (α : Type) where
  | returned
  | done (value : α) (locals : Locals)

structure Execution (α : Type) where
  uses : List LocalUse
  outcome : Outcome α

def ExecM (α : Type) := Locals → List (Execution α)

namespace ExecM

def andThen {α β : Type} (first : Execution α) (next : α → ExecM β) : List (Execution β) :=
  match first.outcome with
  | .returned => [⟨first.uses, .returned⟩]
  | .done value locals => (next value locals).map fun second => ⟨first.uses ++ second.uses, second.outcome⟩

instance : Monad ExecM where
  pure value := fun locals => [⟨[], .done value locals⟩]
  bind first next := fun locals => (first locals).flatMap fun execution => andThen execution next

/-- Reads a name; one that is not a local is never None. -/
def read (name : String) (kind : UseKind) (span : Span) : ExecM (Option Bool) := fun locals =>
  match locals.lookup name with
  | some isNone => [⟨[⟨name, kind, span, isNone⟩], .done (some isNone) locals⟩]
  | none => [⟨[], .done (some false) locals⟩]

def store (name : String) (value : Option Bool) : ExecM Unit := fun locals =>
  match value with
  | some isNone => [⟨[], .done () (locals.give name isNone)⟩]
  | none => [⟨[], .done () locals⟩]

/-- Declares a local. One that is given nothing counts as None. -/
def declare (name : String) (value : Option Bool) : ExecM Unit := fun locals =>
  [⟨[], .done () ((name, value.getD true) :: locals)⟩]

def leave {α : Type} : ExecM α := fun _ => [⟨[], .returned⟩]

def inBlock {α : Type} (block : ExecM α) : ExecM α := fun locals =>
  (block locals).map fun execution =>
    match execution.outcome with
    | .returned => ⟨execution.uses, .returned⟩
    | .done value after => ⟨execution.uses, .done value (after.outermost locals.length)⟩

end ExecM

def Expr.comparedWithNone? (locals : Locals) : Expr → Option Bool
  | ⟨.binary .equal ⟨.ident name, _⟩ ⟨.literal .none, _⟩, _⟩ => locals.lookup name
  | ⟨.binary .equal ⟨.literal .none, _⟩ ⟨.ident name, _⟩, _⟩ => locals.lookup name
  | ⟨.binary .notEqual ⟨.ident name, _⟩ ⟨.literal .none, _⟩, _⟩ => (locals.lookup name).map not
  | ⟨.binary .notEqual ⟨.literal .none, _⟩ ⟨.ident name, _⟩, _⟩ => (locals.lookup name).map not
  | _ => none

def ExecM.choose (condition : Expr) : ExecM Bool := fun locals =>
  match condition.comparedWithNone? locals with
  | some taken => [⟨[], .done taken locals⟩]
  | none => [⟨[], .done true locals⟩, ⟨[], .done false locals⟩]

def Operator.usesOperandAs : Operator → UseKind
  | .add | .subtract | .multiply | .divide | .modulo => .operand
  | .greater | .greaterEqual | .less | .lessEqual => .operand
  | .equal | .notEqual | .and | .or => .read

namespace ExecM

mutual

/-- Runs an expression whose value is used as `kind` says: whether the value is None. A conditional
has no value where the branch taken has none. -/
def expr (kind : UseKind) : Expr → ExecM (Option Bool)
  | ⟨.literal .none, _⟩ => return some true
  | ⟨.literal _, _⟩ => return some false
  | ⟨.ident name, span⟩ => read name kind span
  | ⟨.tuple items, _⟩ => do
    exprs .read items
    return some false
  | ⟨.list items, _⟩ => do
    exprs .read items
    return some false
  | ⟨.dict entries, _⟩ => do
    pairs entries
    return some false
  | ⟨.assign ⟨.ident name, _⟩ value, _⟩ => do
    let held ← expr .read value
    store name held
    return some false
  | ⟨.assign ⟨.field object _, _⟩ value, _⟩ => do
    discard <| expr .read value
    discard <| expr .fieldAccess object
    return some false
  | ⟨.assign place value, _⟩ => do
    discard <| expr .read value
    discard <| expr .read place
    return some false
  | ⟨.call ⟨.field object _, _⟩ _ arguments, _⟩ => do
    discard <| expr .receiver object
    exprs .argument arguments
    return some false
  | ⟨.call callee _ arguments, _⟩ => do
    discard <| expr .read callee
    exprs .argument arguments
    return some false
  | ⟨.field object _, _⟩ => do
    discard <| expr .fieldAccess object
    return some false
  | ⟨.binary operator left right, _⟩ => do
    discard <| expr operator.usesOperandAs left
    discard <| expr operator.usesOperandAs right
    return some false
  | ⟨.cond condition thenBranch elseBranch, _⟩ => do
    discard <| expr .read condition
    if ← choose condition then inBlock (block thenBranch) else inBlock (orElse elseBranch)

def exprs (kind : UseKind) : List Expr → ExecM Unit
  | [] => return ()
  | item :: rest => do
    discard <| expr kind item
    exprs kind rest

def pairs : List (Expr × Expr) → ExecM Unit
  | [] => return ()
  | (key, value) :: rest => do
    discard <| expr .read key
    discard <| expr .read value
    pairs rest

def orElse : Option (List Statement) → ExecM (Option Bool)
  | none => return none
  | some branch => block branch

/-- Runs statements in order; the value is that of the last, if it is an expression. -/
def block : List Statement → ExecM (Option Bool)
  | [] => return none
  | first :: rest => do
    let value ← statement first
    if rest.isEmpty then return value else block rest

def statement : Statement → ExecM (Option Bool)
  | .bind name _ none _ => do
    declare name none
    return none
  | .bind name _ (some value) _ => do
    let held ← expr .read value
    declare name held
    return none
  | .expression value => expr .read value
  | .ret none _ => leave
  | .ret (some value) _ => do
    discard <| expr .read value
    leave

end

end ExecM

def Locals.ofParameters (parameters : List (String × Span)) : Locals :=
  (parameters.map fun (name, _) => (name, false)).reverse

/-- All executions of a body, each as the uses of locals it makes. -/
def Block.executions (parameters : List (String × Span)) (body : Block) : List (List LocalUse) :=
  (ExecM.block body (.ofParameters parameters)).map Execution.uses

end SemanticChecker
