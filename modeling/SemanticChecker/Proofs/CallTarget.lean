import SemanticChecker.Check.Body

/-! The check of a call in two parts: what is called is found, and the arguments are checked against it. -/
namespace SemanticChecker

/-- What is checked for its value where an expression is called: the object of a member, or the expression itself. -/
def Expr.subject : Expr → Expr
  | ⟨.field object _, _⟩ => object
  | callee => callee

namespace BodyContext

/-- What an expression stands for where it is called. A member is a method, a field or a variant; anything else is a
declared struct or function, or a value. -/
def callTarget (body : BodyContext) (env : Env) (span : Span) : Expr → CheckM CallTarget
  | ⟨.field object name, calleeSpan⟩ =>
    match body.enumNamed? env object with
    | none => do
      let receiver ← checkExpr body env (.value none) object
      body.methodTarget receiver name calleeSpan span
    | some id => do
      let callee ← body.checkVariant id name calleeSpan
      body.valueTarget callee calleeSpan
  | callee =>
    match callee.name?.bind fun name => if (env.lookup name).isSome then none else body.symbol? name with
    | some (.struct id) => body.constructTarget id span
    | some (.function id) => pure (body.functionTarget id)
    | _ => do
      let value ← checkExpr body env (.value none) callee
      body.valueTarget value callee.span

/-- What is written of type arguments is taken over, the arguments are matched with the parameters one after the other,
and the call is closed. -/
def checkCall (body : BodyContext) (env : Env) (typeArguments : List TypeExpr) (given : List Expr) (span : Span)
    (target : CallTarget) : CheckM TypedExpr := do
  let call ← body.openTarget target typeArguments given.length span
  let (arguments, call) ← checkArguments body env call 1 (openParams call) given
  body.closeTarget target.callee call arguments span

variable {body : BodyContext} {env : Env} {span : Span}

theorem checkExpr_call (mode : Mode) (callee : Expr) (typeArguments : List TypeExpr) (given : List Expr) :
    checkExpr body env mode ⟨.call callee typeArguments given, span⟩ =
      body.callTarget env span callee >>= body.checkCall env typeArguments given span := by
  have plain : ∀ callee, (∀ object name span, callee = ⟨.field object name, span⟩ → False) →
      checkExpr body env mode ⟨.call callee typeArguments given, span⟩ =
        body.callTarget env span callee >>= body.checkCall env typeArguments given span := by
    intro callee notField
    rw [checkExpr, callTarget]
    · cases callee.name? with
      | none => rfl
      | some name =>
        dsimp only [Option.bind_some]
        generalize (if (env.lookup name).isSome then none else body.symbol? name) = named
        rcases named with _ | (_ | _ | _ | _) <;> rfl
    · exact notField
    · exact notField
  obtain ⟨form, calleeSpan⟩ := callee
  cases form with
  | field object name =>
    rw [checkExpr, callTarget]
    cases body.enumNamed? env object <;> simp <;> rfl
  | _ => exact plain _ nofun

theorem callTarget_cases {motive : Expr → CheckM CallTarget → Prop}
    (construct : ∀ name nameSpan id, env.lookup name = none → body.symbol? name = some (.struct id) →
      motive ⟨.ident name, nameSpan⟩ (body.constructTarget id span))
    (function : ∀ name nameSpan id, env.lookup name = none → body.symbol? name = some (.function id) →
      motive ⟨.ident name, nameSpan⟩ (pure (body.functionTarget id)))
    (value : ∀ callee : Expr, callee.subject = callee → motive callee (do
      let value ← checkExpr body env (.value none) callee
      body.valueTarget value callee.span))
    (method : ∀ object name calleeSpan, motive ⟨.field object name, calleeSpan⟩ (do
      let receiver ← checkExpr body env (.value none) object
      body.methodTarget receiver name calleeSpan span))
    (variant : ∀ object id name calleeSpan, body.enumNamed? env object = some id →
      motive ⟨.field object name, calleeSpan⟩ (do
        let callee ← body.checkVariant id name calleeSpan
        body.valueTarget callee calleeSpan))
    (callee : Expr) : motive callee (body.callTarget env span callee) := by
  obtain ⟨form, calleeSpan⟩ := callee
  cases form with
  | field object name =>
    rw [callTarget]
    cases found : body.enumNamed? env object with
    | none => exact method object name calleeSpan
    | some id => exact variant object id name calleeSpan found
  | ident name =>
    simp only [callTarget, Expr.name?, Option.bind_some]
    cases missing : env.lookup name with
    | some => exact value _ rfl
    | none =>
      cases found : body.symbol? name with
      | none => exact value _ rfl
      | some symbol =>
        cases symbol with
        | struct id => exact construct name calleeSpan id missing found
        | function id => exact function name calleeSpan id missing found
        | _ => exact value _ rfl
  | _ => exact value _ rfl

end BodyContext

end SemanticChecker
