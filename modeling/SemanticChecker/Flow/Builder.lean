import SemanticChecker.Flow.Graph
import SemanticChecker.Source.Expr

/-! Builds the flow graph of a body. Names are resolved lexically on the way. A conditional whose value
goes to a binding assigns the last value of each branch to it, at the end of the branch. -/
namespace SemanticChecker

/-- A graph under construction and the block that operations are added to. -/
structure FlowBuilder where
  graph : FlowGraph := {}
  current : BlockId := FlowGraph.entry

abbrev FlowScope := List (String × BindingId)

abbrev BuildM := StateM FlowBuilder

namespace BuildM

def emit (op : FlowOp) : BuildM Unit :=
  modify fun b => { b with graph := b.graph.addOp b.current op }

def newBlock : BuildM BlockId :=
  modifyGet fun b =>
    let (graph, id) := b.graph.addBlock
    (id, { b with graph })

def newBinding (name : String) (span : Span) : BuildM BindingId :=
  modifyGet fun b =>
    let (graph, id) := b.graph.addBinding name span
    (id, { b with graph })

def edge (source target : BlockId) : BuildM Unit :=
  modify fun b => { b with graph := b.graph.addEdge source target }

def enter (block : BlockId) : BuildM Unit :=
  modify fun b => { b with current := block }

def leaveTo (target : BlockId) : BuildM Unit :=
  modify fun b => { b with graph := b.graph.addEdge b.current target }

/-- Hands a value on to the binding that receives it, if there is one. -/
def deliver (target : Option BindingId) (value : ValueSource) : BuildM ValueSource := do
  match target with
  | some binding => emit (.assign binding value)
  | none => pure ()
  return value

end BuildM

/-- What a comparison of a name with None tells in the two branches of a conditional. -/
structure Narrowing where
  binding : BindingId
  inThen : NoneState
  inElse : NoneState

def Expr.noneGuard? : Expr → Option (String × Operator)
  | ⟨.binary operator left right, _⟩ =>
    if right.isNone then left.name?.map fun name => (name, operator)
    else if left.isNone then right.name?.map fun name => (name, operator)
    else none
  | _ => none

def Narrowing.of? (scope : FlowScope) (condition : Expr) : Option Narrowing := do
  let (name, operator) ← condition.noneGuard?
  let binding ← scope.lookup name
  match operator with
  | .equal => some ⟨binding, .definitelyNone, .definitelyNotNone⟩
  | .notEqual => some ⟨binding, .definitelyNotNone, .definitelyNone⟩
  | _ => none

def Operator.operandUse (operator : Operator) : UseKind :=
  if operator.isArithmetic || operator.isOrdering then .operand else .read

def Expr.isCond : Expr → Bool
  | ⟨.cond .., _⟩ => true
  | _ => false

namespace BuildM

def narrow (guard : Option Narrowing) (state : Narrowing → NoneState) : BuildM Unit := do
  match guard with
  | some guard => emit (.assume guard.binding (state guard))
  | none => pure ()

mutual

/-- The operations of an expression that is used as `kind` says. Its value goes to `target`. -/
def evaluate (scope : FlowScope) (kind : UseKind) (target : Option BindingId) :
    Expr → BuildM ValueSource
  | ⟨.literal .none, _⟩ => deliver target .none
  | ⟨.literal _, _⟩ => deliver target .notNone
  | ⟨.ident name, span⟩ => do
    match scope.lookup name with
    | some binding =>
      emit (.use binding kind span)
      deliver target (.binding binding)
    | none => deliver target .notNone
  | ⟨.tuple items, _⟩ => do
    evaluateAll scope .read items
    deliver target .notNone
  | ⟨.list items, _⟩ => do
    evaluateAll scope .read items
    deliver target .notNone
  | ⟨.dict entries, _⟩ => do
    evaluateEntries scope entries
    deliver target .notNone
  | ⟨.assign ⟨.ident name, _⟩ value, _⟩ => do
    discard <| evaluate scope .read (scope.lookup name) value
    deliver target .notNone
  | ⟨.assign ⟨.field object _, _⟩ value, _⟩ => do
    discard <| evaluate scope .read none value
    discard <| evaluate scope .fieldAccess none object
    deliver target .notNone
  | ⟨.assign place value, _⟩ => do
    discard <| evaluate scope .read none value
    discard <| evaluate scope .read none place
    deliver target .notNone
  | ⟨.call ⟨.field object _, _⟩ _ arguments, _⟩ => do
    discard <| evaluate scope .receiver none object
    evaluateAll scope .argument arguments
    deliver target .notNone
  | ⟨.call callee _ arguments, _⟩ => do
    discard <| evaluate scope .read none callee
    evaluateAll scope .argument arguments
    deliver target .notNone
  | ⟨.field object _, _⟩ => do
    discard <| evaluate scope .fieldAccess none object
    deliver target .notNone
  | ⟨.binary operator left right, _⟩ => do
    discard <| evaluate scope operator.operandUse none left
    discard <| evaluate scope operator.operandUse none right
    deliver target .notNone
  | ⟨.cond condition thenBranch elseBranch, _⟩ => do
    discard <| evaluate scope .read none condition
    let guard := Narrowing.of? scope condition
    let before := (← get).current
    let thenBlock ← newBlock
    let elseBlock ← newBlock
    let join ← newBlock
    edge before thenBlock
    edge before elseBlock
    enter thenBlock
    narrow guard Narrowing.inThen
    statements scope target thenBranch
    leaveTo join
    enter elseBlock
    narrow guard Narrowing.inElse
    otherwise scope target elseBranch
    leaveTo join
    enter join
    return .notNone

def evaluateAll (scope : FlowScope) (kind : UseKind) : List Expr → BuildM Unit
  | [] => pure ()
  | item :: rest => do
    discard <| evaluate scope kind none item
    evaluateAll scope kind rest

def evaluateEntries (scope : FlowScope) : List (Expr × Expr) → BuildM Unit
  | [] => pure ()
  | (key, value) :: rest => do
    discard <| evaluate scope .read none key
    discard <| evaluate scope .read none value
    evaluateEntries scope rest

def otherwise (scope : FlowScope) (target : Option BindingId) : Option (List Statement) → BuildM Unit
  | none => pure ()
  | some branch => statements scope target branch

/-- Statements in order; the value of the last one, if it is an expression, goes to `target`. -/
def statements (scope : FlowScope) (target : Option BindingId) : List Statement → BuildM Unit
  | [] => pure ()
  | first :: rest => do
    let scope ← statement scope (if rest.isEmpty then target else none) first
    statements scope target rest

/-- One statement, and the scope of the next. A name is in scope after its declaration, not in it. -/
def statement (scope : FlowScope) (target : Option BindingId) : Statement → BuildM FlowScope
  | .bind name _ none span => do
    let binding ← newBinding name span
    emit (.declare binding none)
    return (name, binding) :: scope
  | .bind name _ (some value) span => do
    let binding ← newBinding name span
    if value.isCond then
      emit (.declare binding none)
      discard <| evaluate scope .read (some binding) value
    else
      let source ← evaluate scope .read none value
      emit (.declare binding (some source))
    return (name, binding) :: scope
  | .expression value => do
    discard <| evaluate scope .read target value
    return scope
  | .ret none _ => do
    leaveTo FlowGraph.exit
    enter (← newBlock)
    return scope
  | .ret (some value) _ => do
    discard <| evaluate scope .read none value
    leaveTo FlowGraph.exit
    enter (← newBlock)
    return scope

end

def parameters (scope : FlowScope) : List (String × Span) → BuildM FlowScope
  | [] => return scope
  | (name, span) :: rest => do
    let binding ← newBinding name span
    emit (.declare binding (some .notNone))
    parameters ((name, binding) :: scope) rest

def body (declared : List (String × Span)) (block : Block) : BuildM Unit := do
  let scope ← parameters [] declared
  statements scope none block
  leaveTo FlowGraph.exit

end BuildM

def FlowGraph.ofBody (parameters : List (String × Span)) (body : Block) : FlowGraph :=
  ((BuildM.body parameters body).run {}).2.graph

end SemanticChecker
