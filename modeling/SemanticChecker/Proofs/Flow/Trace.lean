import Mathlib.Computability.Language
import SemanticChecker.Flow.Builder
import SemanticChecker.Proofs.Flow.Execution

/-! The operations that a body performs when it runs, read off the body itself. Every declaration has a number, in the
order of evaluation; a name stands for the innermost declaration of it that came before. A conditional performs its
condition and one of its branches, and hands on the value of that branch. All runs of a body are listed. -/
namespace SemanticChecker

open List

mutual

/-- The names that an expression declares, in the order in which its parts are evaluated. -/
def Expr.lets : Expr → List FlowBinding
  | ⟨.literal _, _⟩ => []
  | ⟨.ident _, _⟩ => []
  | ⟨.tuple items, _⟩ => Expr.letsAll items
  | ⟨.list items, _⟩ => Expr.letsAll items
  | ⟨.dict entries, _⟩ => Expr.letsOf entries
  | ⟨.assign target value, _⟩ => value.lets ++ target.lets
  | ⟨.call callee _ arguments, _⟩ => callee.lets ++ Expr.letsAll arguments
  | ⟨.field object _, _⟩ => object.lets
  | ⟨.binary _ left right, _⟩ => left.lets ++ right.lets
  | ⟨.cond condition thenBranch elseBranch, _⟩ =>
    condition.lets ++ (Statement.letsAll thenBranch ++ Statement.letsElse elseBranch)

def Expr.letsAll : List Expr → List FlowBinding
  | [] => []
  | item :: rest => item.lets ++ Expr.letsAll rest

def Expr.letsOf : List (Expr × Expr) → List FlowBinding
  | [] => []
  | (key, value) :: rest => key.lets ++ (value.lets ++ Expr.letsOf rest)

def Statement.letsElse : Option (List Statement) → List FlowBinding
  | none => []
  | some branch => Statement.letsAll branch

def Statement.letsAll : List Statement → List FlowBinding
  | [] => []
  | first :: rest => first.lets ++ Statement.letsAll rest

def Statement.lets : Statement → List FlowBinding
  | .bind name _ none span => [⟨name, span⟩]
  | .bind name _ (some value) span => ⟨name, span⟩ :: value.lets
  | .expression value => value.lets
  | .ret none _ => []
  | .ret (some value) _ => value.lets

end

/-- The scope of the statements that follow, where `next` is the number of the next declaration. -/
def Statement.scopeAfter (scope : FlowScope) (next : Nat) : Statement → FlowScope
  | .bind name _ _ _ => (name, ⟨next⟩) :: scope
  | .expression _ | .ret _ _ => scope

def FlowScope.told (scope : FlowScope) (name : String) (isNone : Bool) : List FlowOp :=
  match scope.lookup name with
  | some binding => [.assume binding (if isNone then .definitelyNone else .definitelyNotNone)]
  | none => []

def Expr.told (scope : FlowScope) (taken : Bool) : Expr → List FlowOp
  | ⟨.binary .equal ⟨.ident name, _⟩ ⟨.literal .none, _⟩, _⟩ => scope.told name taken
  | ⟨.binary .equal ⟨.literal .none, _⟩ ⟨.ident name, _⟩, _⟩ => scope.told name taken
  | ⟨.binary .notEqual ⟨.ident name, _⟩ ⟨.literal .none, _⟩, _⟩ => scope.told name (!taken)
  | ⟨.binary .notEqual ⟨.literal .none, _⟩ ⟨.ident name, _⟩, _⟩ => scope.told name (!taken)
  | _ => []

/-- One way in which a part of a body may run: the operations in order, and what it comes to unless it returned. -/
structure Trace (α : Type) where
  ops : List FlowOp
  value : Option α

def Trace.andThen {α β : Type} (first : Trace α) (next : α → List (Trace β)) : List (Trace β) :=
  match first.value with
  | none => [⟨first.ops, none⟩]
  | some value => (next value).map fun second => ⟨first.ops ++ second.ops, second.value⟩

/-- All ways in which a part of a body may run. -/
@[ext] structure TraceM (α : Type) where
  runs : List (Trace α)

namespace TraceM

instance : Monad TraceM where
  pure value := ⟨[⟨[], some value⟩]⟩
  bind first next := ⟨first.runs.flatMap fun run => run.andThen fun value => (next value).runs⟩

def perform (ops : List FlowOp) : TraceM Unit := ⟨[⟨ops, some ()⟩]⟩

def leave {α : Type} : TraceM α := ⟨[⟨[], none⟩]⟩

def either {α : Type} (left right : TraceM α) : TraceM α := ⟨left.runs ++ right.runs⟩

def store : Option BindingId → Option ValueSource → TraceM Unit
  | some binding, some value => perform [.assign binding value]
  | _, _ => return ()

mutual

/-- Runs an expression whose value is used as `kind` says. A conditional has the value of the branch that is taken, and
none where the branch has none. -/
def expr (scope : FlowScope) (next : Nat) (kind : UseKind) : Expr → TraceM (Option ValueSource)
  | ⟨.literal .none, _⟩ => return some .none
  | ⟨.literal _, _⟩ => return some .notNone
  | ⟨.ident name, span⟩ => do
    match scope.lookup name with
    | some binding =>
      perform [.use binding kind span]
      return some (.binding binding)
    | none => return some .notNone
  | ⟨.tuple items, _⟩ => do
    exprs scope next .read items
    return some .notNone
  | ⟨.list items, _⟩ => do
    exprs scope next .read items
    return some .notNone
  | ⟨.dict entries, _⟩ => do
    pairs scope next entries
    return some .notNone
  | ⟨.assign ⟨.ident name, _⟩ value, _⟩ => do
    let held ← expr scope next .read value
    store (scope.lookup name) held
    return some .notNone
  | ⟨.assign ⟨.field object _, _⟩ value, _⟩ => do
    discard <| expr scope next .read value
    discard <| expr scope (next + value.lets.length) .fieldAccess object
    return some .notNone
  | ⟨.assign place value, _⟩ => do
    discard <| expr scope next .read value
    discard <| expr scope (next + value.lets.length) .read place
    return some .notNone
  | ⟨.call ⟨.field object _, _⟩ _ arguments, _⟩ => do
    discard <| expr scope next .receiver object
    exprs scope (next + object.lets.length) .argument arguments
    return some .notNone
  | ⟨.call callee _ arguments, _⟩ => do
    discard <| expr scope next .read callee
    exprs scope (next + callee.lets.length) .argument arguments
    return some .notNone
  | ⟨.field object _, _⟩ => do
    discard <| expr scope next .fieldAccess object
    return some .notNone
  | ⟨.binary operator left right, _⟩ => do
    discard <| expr scope next operator.usesOperandAs left
    discard <| expr scope (next + left.lets.length) operator.usesOperandAs right
    return some .notNone
  | ⟨.cond condition thenBranch elseBranch, _⟩ => do
    discard <| expr scope next .read condition
    let inThen := next + condition.lets.length
    let inElse := inThen + (Statement.letsAll thenBranch).length
    either
      (do perform (condition.told scope true)
          block scope inThen thenBranch)
      (do perform (condition.told scope false)
          orElse scope inElse elseBranch)

def exprs (scope : FlowScope) (next : Nat) (kind : UseKind) : List Expr → TraceM Unit
  | [] => return ()
  | item :: rest => do
    discard <| expr scope next kind item
    exprs scope (next + item.lets.length) kind rest

def pairs (scope : FlowScope) (next : Nat) : List (Expr × Expr) → TraceM Unit
  | [] => return ()
  | (key, value) :: rest => do
    discard <| expr scope next .read key
    discard <| expr scope (next + key.lets.length) .read value
    pairs scope (next + key.lets.length + value.lets.length) rest

def orElse (scope : FlowScope) (next : Nat) : Option (List Statement) → TraceM (Option ValueSource)
  | none => return none
  | some branch => block scope next branch

/-- Runs statements in order; the value is that of the last, if it is an expression. -/
def block (scope : FlowScope) (next : Nat) : List Statement → TraceM (Option ValueSource)
  | [] => return none
  | first :: rest => do
    let value ← statement scope next first
    if rest.isEmpty then return value
    else block (first.scopeAfter scope next) (next + first.lets.length) rest

/-- Runs a statement. A name that starts with a conditional is declared first and assigned in the branch. -/
def statement (scope : FlowScope) (next : Nat) : Statement → TraceM (Option ValueSource)
  | .bind _ _ none _ => do
    perform [.declare ⟨next⟩ none]
    return none
  | .bind _ _ (some value) _ =>
    if value.isCond then do
      perform [.declare ⟨next⟩ none]
      let held ← expr scope (next + 1) .read value
      store (some ⟨next⟩) held
      return none
    else do
      let held ← expr scope (next + 1) .read value
      perform [.declare ⟨next⟩ held]
      return none
  | .expression value => expr scope next .read value
  | .ret none _ => leave
  | .ret (some value) _ => do
    discard <| expr scope next .read value
    leave

end

/-- Declares parameters, none of which is None, one after the other. -/
def parameters (next : Nat) : List (String × Span) → TraceM Unit
  | [] => return ()
  | _ :: rest => do
    perform [.declare ⟨next⟩ (some .notNone)]
    parameters (next + 1) rest

end TraceM

def FlowScope.ofParameters (scope : FlowScope) (next : Nat) : List (String × Span) → FlowScope
  | [] => scope
  | (name, _) :: rest => FlowScope.ofParameters ((name, ⟨next⟩) :: scope) (next + 1) rest

/-- All runs of a body, each as the operations it performs. -/
def Block.traces (parameters : List (String × Span)) (body : Block) : List (List FlowOp) :=
  let runs : TraceM (Option ValueSource) := do
    TraceM.parameters 0 parameters
    TraceM.block (FlowScope.ofParameters [] 0 parameters) parameters.length body
  runs.runs.map Trace.ops

theorem Trace.flatMap_andThen {α β γ : Type} (first : Trace α) (next : α → List (Trace β)) (last : β → List (Trace γ)) :
    (first.andThen next).flatMap (Trace.andThen · last) =
      first.andThen fun value => (next value).flatMap (Trace.andThen · last) := by
  obtain ⟨ops, value⟩ := first
  cases value with
  | none => simp [andThen]
  | some value =>
    have later : ∀ second : Trace β, Trace.andThen ⟨ops ++ second.ops, second.value⟩ last =
        (second.andThen last).map fun third => ⟨ops ++ third.ops, third.value⟩ := by
      rintro ⟨more, value⟩
      cases value <;> simp [andThen, Function.comp_def]
    simp only [andThen, flatMap_map, map_flatMap]
    exact congrArg (List.flatMap · (next value)) (funext later)

namespace TraceM

variable {α β γ : Type}

@[simp] theorem runs_pure (value : α) : (pure value : TraceM α).runs = [⟨[], some value⟩] :=
  rfl

@[simp] theorem runs_bind (x : TraceM α) (f : α → TraceM β) :
    (x >>= f).runs = x.runs.flatMap fun run => run.andThen fun value => (f value).runs :=
  rfl

instance : LawfulMonad TraceM := by
  refine LawfulMonad.mk' TraceM (fun {α} x => ?_) (fun value f => ?_) fun x f g => ?_
  · have single : ∀ run : Trace α, (run.andThen fun value => (pure value : TraceM α).runs) = [run] := by
      rintro ⟨ops, value⟩
      cases value <;> simp [Trace.andThen]
    have step : id <$> x = x >>= pure := rfl
    apply TraceM.ext
    simp only [step, runs_bind, single, flatMap_singleton']
  · apply TraceM.ext
    simp [Trace.andThen]
  · apply TraceM.ext
    simp only [runs_bind, flatMap_assoc, Trace.flatMap_andThen]

theorem either_bind (x y : TraceM α) (f : α → TraceM β) : (either x y >>= f) = either (x >>= f) (y >>= f) := by
  apply TraceM.ext
  simp [either]

@[simp] theorem leave_bind (f : α → TraceM β) : (leave >>= f) = leave :=
  rfl

@[simp] theorem store_nowhere : store none = fun _ => pure () := by
  funext value
  cases value <;> rfl

@[simp] theorem store_nothing (target : Option BindingId) : store target none = pure () := by
  cases target <;> rfl

end TraceM

/-- Where the value of an expression that is no conditional comes from. -/
def Expr.source (scope : FlowScope) : Expr → ValueSource
  | ⟨.literal .none, _⟩ => .none
  | ⟨.ident name, _⟩ =>
    match scope.lookup name with
    | some binding => .binding binding
    | none => .notNone
  | _ => .notNone

namespace TraceM

variable {α β : Type}

def Yields (x : TraceM α) (value : α) : Prop :=
  ∀ run ∈ x.runs, ∀ other, run.value = some other → other = value

theorem Yields.bind_eq {x : TraceM α} {value : α} (yields : x.Yields value) (f : α → TraceM β) :
    (x >>= f) = x >>= fun _ => f value := by
  apply TraceM.ext
  refine flatMap_congr fun run mem => ?_
  cases found : run.value with
  | none => simp [Trace.andThen, found]
  | some other => simp [Trace.andThen, found, yields run mem other found]

theorem yields_pure (value : α) : (pure value : TraceM α).Yields value := by
  simp [Yields]

theorem yields_bind {x : TraceM α} {f : α → TraceM β} {value : β} (each : ∀ a, (f a).Yields value) :
    (x >>= f).Yields value := by
  intro run mem other found
  obtain ⟨⟨ops, early⟩, _, later⟩ := mem_flatMap.1 mem
  cases early with
  | none =>
    rw [mem_singleton.1 later] at found
    cases found
  | some a =>
    obtain ⟨second, isOne, rfl⟩ := mem_map.1 later
    exact each a second isOne other found

theorem expr_yields {scope : FlowScope} {next : Nat} {kind : UseKind} {e : Expr} (plain : e.isCond = false) :
    (expr scope next kind e).Yields (some (e.source scope)) := by
  obtain ⟨form, span⟩ := e
  cases form with
  | literal value => cases value <;> exact yields_pure _
  | ident name =>
    simp only [expr, Expr.source]
    cases scope.lookup name with
    | none => exact yields_pure _
    | some binding => exact yields_bind fun _ => yields_pure _
  | assign target value =>
    obtain ⟨place, here⟩ := target
    cases place <;> exact yields_bind fun _ => yields_bind fun _ => yields_pure _
  | call callee typeArguments arguments =>
    obtain ⟨callee, here⟩ := callee
    cases callee <;> exact yields_bind fun _ => yields_bind fun _ => yields_pure _
  | binary operator left right =>
    simp only [expr, Expr.source]
    exact yields_bind fun _ => yields_bind fun _ => yields_pure _
  | cond => cases plain
  | _ =>
    simp only [expr, Expr.source]
    exact yields_bind fun _ => yields_pure _

end TraceM

end SemanticChecker
