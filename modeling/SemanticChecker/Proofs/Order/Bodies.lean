import SemanticChecker.Proofs.CallTarget
import SemanticChecker.Proofs.Order.Calls

/-! Bodies under other numbers: every expression has the same type, and the same is reported. -/
namespace SemanticChecker

open List

def Mode.rename (ρ : Renaming) : Mode → Mode
  | statement => statement
  | value expected => value (expected.map (Ty.rename ρ))

@[simp] theorem Mode.expected_rename (ρ : Renaming) (mode : Mode) :
    (mode.rename ρ).expected = mode.expected.map (Ty.rename ρ) := by
  cases mode <;> rfl

def Env.rename (ρ : Renaming) (env : Env) : Env :=
  env.map fun entry => (entry.1, entry.2.rename ρ)

theorem Env.lookup_rename (ρ : Renaming) (env : Env) (name : String) :
    (env.rename ρ).lookup name = (env.lookup name).map (Ty.rename ρ) := by
  induction env with
  | nil => rfl
  | cons entry rest ih =>
    rw [rename, map_cons, lookup_cons, lookup_cons]
    cases name == entry.1 with
    | true => rfl
    | false => exact ih

section Expected

variable (ρ : Renaming)

theorem primitive?_bind_rename (expected : Option Ty) :
    (expected.map (Ty.rename ρ) >>= Ty.primitive?) = expected >>= Ty.primitive? := by
  cases expected with
  | none => rfl
  | some t => exact t.primitive?_rename ρ

theorem getD_rename (expected : Option Ty) (t : Ty) :
    (expected.map (Ty.rename ρ)).getD (t.rename ρ) = (expected.getD t).rename ρ := by
  cases expected <;> rfl

theorem expectedSlots_rename (expected : Option Ty) (count : Nat) :
    expectedSlots (expected.map (Ty.rename ρ)) count = (expectedSlots expected count).map (Ty.rename ρ) := by
  cases expected with
  | none => rfl
  | some t =>
    cases t with
    | tuple slots =>
      simp only [Option.map_some, Ty.rename, Ty.renameAll_eq_map, expectedSlots, length_map]
      split <;> rfl
    | _ => rfl

theorem expectedElement_rename (expected : Option Ty) :
    expectedElement (expected.map (Ty.rename ρ)) = (expectedElement expected).map (Ty.rename ρ) := by
  cases expected with
  | none => rfl
  | some t => cases t <;> rfl

theorem expectedEntry_rename (expected : Option Ty) : expectedEntry (expected.map (Ty.rename ρ)) =
    ((expectedEntry expected).1.map (Ty.rename ρ), (expectedEntry expected).2.map (Ty.rename ρ)) := by
  cases expected with
  | none => rfl
  | some t => cases t <;> rfl

theorem TypedBlock.rename_ofStatements (mode : Mode) (statements : List TypedStatement) :
    (TypedBlock.ofStatements mode statements).rename ρ =
      TypedBlock.ofStatements (mode.rename ρ) (statements.map (TypedStatement.rename ρ)) := by
  have diverges : (statements.map (TypedStatement.rename ρ)).any TypedStatement.diverges =
      statements.any TypedStatement.diverges := by
    simp [any_map, Function.comp_def]
  simp only [ofStatements, TypedBlock.rename, diverges, TypedStatement.renameEach_eq_map, getLast?_map]
  cases mode with
  | statement => rfl
  | value expected =>
    cases statements.getLast? with
    | none => rfl
    | some last =>
      cases last with
      | expression value => exact congrArg (TypedBlock.mk _ · _) (value.type_rename ρ).symm
      | _ => rfl

end Expected

namespace BodyContext.Renames

variable {ρ : Renaming} {body other : BodyContext} (h : body.Renames ρ other)

include h

theorem enumNamed?_rename (env : Env) (expr : Expr) :
    other.enumNamed? (env.rename ρ) expr = (body.enumNamed? env expr).map ρ.enum := by
  rw [enumNamed?, enumNamed?]
  cases expr.name? with
  | none => rfl
  | some name =>
    simp only [Option.bind_eq_bind, Option.bind_some, env.lookup_rename, h.symbol?_rename]
    cases env.lookup name with
    | some t => rfl
    | none =>
      cases body.symbol? name with
      | none => rfl
      | some symbol => cases symbol <;> rfl

variable {env : Env} {expected : Option Ty} {span : Span} {name : String} {block : Block} {function : String}

theorem checkLiteral_follows (value : Literal) :
    CheckFollows ρ (Ty.rename ρ) (body.checkLiteral expected span value)
      (other.checkLiteral (expected.map (Ty.rename ρ)) span value) := by
  cases value with
  | integer value =>
    simp only [checkLiteral, primitive?_bind_rename, h.program.options]
    exact .ite (.pure rfl) (.refused rfl)
  | float value =>
    simp only [checkLiteral, primitive?_bind_rename, h.program.options]
    cases expected >>= Ty.primitive? <;> exact .pure rfl
  | string value => exact .pure rfl
  | boolean value => exact .pure rfl
  | none =>
    cases expected with
    | none => exact .refused rfl
    | some t => exact .pure rfl

theorem checkName_follows :
    CheckFollows ρ (TypedExpr.rename ρ) (body.checkName env name span) (other.checkName (env.rename ρ) name span) := by
  rw [checkName, checkName, env.lookup_rename, h.symbol?_rename]
  cases env.lookup name with
  | some t => exact .pure rfl
  | none =>
    cases body.symbol? name with
    | none => exact .refused rfl
    | some symbol =>
      cases symbol with
      | function id =>
        simp only [Option.map_none, Option.map_some, Symbol.rename, h.program.table.function?]
        cases body.program.table.function? id with
        | none => exact .pure rfl
        | some own =>
          simp only [Option.map_some, FunctionDef.rename, Signature.isGeneric_rename, Signature.type_rename]
          exact .ite (.refused rfl) (.pure rfl)
      | _ => exact .refused rfl

theorem checkVariant_follows {id : EnumId} {variant : String} :
    CheckFollows ρ (TypedExpr.rename ρ) (body.checkVariant id variant span)
      (other.checkVariant (ρ.enum id) variant span) := by
  rw [checkVariant, checkVariant, h.program.enums]
  cases body.program.declared.enums.get? id with
  | none => exact .pure rfl
  | some info =>
    dsimp only
    cases info.variant? variant with
    | some found => exact .pure rfl
    | none => exact .refused rfl

theorem checkMember_follows {object : TypedExpr} :
    CheckFollows ρ (TypedExpr.rename ρ) (body.checkMember object name span)
      (other.checkMember (object.rename ρ) name span) := by
  rw [checkMember, checkMember, TypedExpr.type_rename]
  cases object.type with
  | struct id arguments =>
    simp only [Ty.rename, Ty.renameAll_eq_map, h.program.fieldType?_rename]
    cases body.program.fieldType? id arguments name with
    | some t => exact .pure rfl
    | none => exact .refused rfl
  | tuple slots =>
    simp only [Ty.rename, Ty.renameAll_eq_map]
    cases slotIndex? name with
    | none => exact .refused rfl
    | some index =>
      simp only [getElem?_map]
      cases slots[index]? with
      | some t => exact .pure rfl
      | none => exact .refused rfl
  | error => exact .pure rfl
  | _ => exact .refused rfl

omit h in
theorem assignmentRole_follows {target : TypedExpr} :
    CheckFollows ρ id (body.assignmentRole target span) (other.assignmentRole (target.rename ρ) span) := by
  rw [assignmentRole, assignmentRole, TypedExpr.kind_rename]
  cases target.kind with
  | ident name => exact .pure rfl
  | field object name => exact .pure rfl
  | _ => exact .refused rfl

theorem checkOperator_follows {operator : Operator} {left right : Ty} :
    CheckFollows ρ (Ty.rename ρ) (body.checkOperator operator left right span)
      (other.checkOperator operator (left.rename ρ) (right.rename ρ) span) := by
  have isText : (left.rename ρ == Ty.primitive .str) = (left == Ty.primitive .str) :=
    Ty.rename_beq ρ left (.primitive .str)
  simp only [checkOperator, Ty.isError_rename, Ty.rename_beq, h.program.isAssignable_rename,
    h.program.satisfies_rename, isText]
  have answer : (if (left.isError || right.isError || left == right) = true then left.rename ρ else .error) =
      (if (left.isError || right.isError || left == right) = true then left else .error).rename ρ := by
    split <;> rfl
  have answering : ∀ {c : Prop} [Decidable c] {problem problem' : Problem} {t t' : Ty}, t' = t.rename ρ →
      CheckFollows ρ (Ty.rename ρ) (if c then (do body.report span problem; return t) else return t)
        (if c then (do other.report span problem'; return t') else return t') :=
    fun same => .ite (.refused same) (.pure same)
  refine .ite (.ite (.pure rfl) (.refused rfl))
    (.ite ?_ (.bind CheckFollows.report fun _ => ?_))
  all_goals exact .ite (answering rfl) (answering answer)

theorem joinBranches_follows {thenBranch elseBranch : TypedBlock} {thenSpan elseSpan : Span} :
    CheckFollows ρ (Ty.rename ρ) (body.joinBranches expected thenBranch elseBranch thenSpan elseSpan)
      (other.joinBranches (expected.map (Ty.rename ρ)) (thenBranch.rename ρ) (elseBranch.rename ρ) thenSpan
        elseSpan) := by
  rw [joinBranches, joinBranches, TypedBlock.diverges_rename, TypedBlock.diverges_rename, TypedBlock.type_rename,
    TypedBlock.type_rename]
  cases thenBranch.diverges <;> cases elseBranch.diverges
  · cases expected with
    | none => exact .bind h.expectAssignable_follows fun _ => .pure rfl
    | some t => exact .bind h.expectAssignable_follows fun _ => .bind h.expectAssignable_follows fun _ => .pure rfl
  · exact .pure rfl
  · exact .pure rfl
  · cases expected <;> exact .pure rfl

theorem bindingType_follows {written : Option (Option Ty)} {initializer : Option TypedExpr} :
    CheckFollows ρ (Ty.rename ρ) (body.bindingType name span written initializer)
      (other.bindingType name span (written.map (Option.map (Ty.rename ρ))) (TypedExpr.renameOption ρ initializer)) := by
  cases written with
  | none =>
    cases initializer with
    | none => exact .refused rfl
    | some value => exact .pure (value.type_rename ρ)
  | some written =>
    cases written with
    | none => exact .pure rfl
    | some t =>
      cases initializer with
      | none => exact .pure rfl
      | some value =>
        have stored : CheckFollows ρ id (body.expectAssignable (.initializer name) t value.type value.span)
            (other.expectAssignable (.initializer name) (t.rename ρ) (value.rename ρ).type (value.rename ρ).span) := by
          rw [TypedExpr.type_rename, TypedExpr.span_rename]
          exact h.expectAssignable_follows
        exact .bind stored fun _ => .pure rfl

theorem expectBool_follows {role role' : Role} {found : Ty} :
    CheckFollows ρ id (body.expectAssignable role (.primitive .bool) found span)
      (other.expectAssignable role' (.primitive .bool) (found.rename ρ) span) :=
  h.expectAssignable_follows

theorem checkCall_follows {target : CallTarget} {typeArguments : List TypeExpr} {arguments : List Expr}
    (items : ∀ (call : Option OpenCall) (params : List Ty),
      CheckFollows ρ (fun found => (found.1.map (TypedExpr.rename ρ), found.2.map (OpenCall.rename ρ)))
        (checkArguments body env call 1 params arguments)
        (checkArguments other (env.rename ρ) (call.map (OpenCall.rename ρ)) 1 (params.map (Ty.rename ρ)) arguments)) :
    CheckFollows ρ (TypedExpr.rename ρ) (body.checkCall env typeArguments arguments span target)
      (other.checkCall (env.rename ρ) typeArguments arguments span (target.rename ρ)) := by
  refine .bind h.openTarget_follows fun call => ?_
  rw [openParams_rename]
  exact .bind (items call (openParams call)) fun _ => h.closeTarget_follows

theorem callTarget_follows {callee : Expr}
    (value : CheckFollows ρ (TypedExpr.rename ρ) (checkExpr body env (.value none) callee.subject)
      (checkExpr other (env.rename ρ) (.value none) callee.subject)) :
    CheckFollows ρ (CallTarget.rename ρ) (body.callTarget env span callee)
      (other.callTarget (env.rename ρ) span callee) := by
  obtain ⟨kind, calleeSpan⟩ := callee
  cases kind with
  | field object name =>
    rw [callTarget, callTarget, h.enumNamed?_rename]
    cases body.enumNamed? env object with
    | none => exact .bind value fun _ => h.methodTarget_follows
    | some id => exact .bind h.checkVariant_follows fun _ => CheckFollows.valueTarget
  | ident name =>
    simp only [callTarget, Expr.name?, Option.bind_some, env.lookup_rename, Option.isSome_map, h.symbol?_rename]
    cases (env.lookup name).isSome with
    | true => exact .bind value fun _ => CheckFollows.valueTarget
    | false =>
      rcases body.symbol? name with _ | (id | _ | id | _)
      case some.struct => exact h.constructTarget_follows
      case some.function => exact .pure (h.functionTarget_rename id)
      all_goals exact .bind value fun _ => CheckFollows.valueTarget
  | _ => exact .bind value fun _ => CheckFollows.valueTarget

omit h

mutual

theorem checkExpr_follows (h : body.Renames ρ other) (e : Expr) (env : Env) (mode : Mode) :
    CheckFollows ρ (TypedExpr.rename ρ) (checkExpr body env mode e)
      (checkExpr other (env.rename ρ) (mode.rename ρ) e) := by
  obtain ⟨kind, span⟩ := e
  cases kind with
  | literal value =>
    rw [checkExpr, checkExpr, Mode.expected_rename]
    exact .bind (h.checkLiteral_follows value) fun _ => .pure rfl
  | tuple items =>
    rw [checkExpr, checkExpr, Mode.expected_rename, expectedSlots_rename]
    refine .bind (checkEach_follows h items env _) fun typed => .pure ?_
    simp [TypedExpr.rename, TypedExprKind.rename, Ty.rename]
  | list items =>
    rw [checkExpr, checkExpr, Mode.expected_rename, expectedElement_rename]
    refine .bind (checkElements_follows h items env _) fun found => ?_
    obtain ⟨typed, element⟩ := found
    cases element with
    | none =>
      refine .refused ?_
      simp [TypedExpr.rename, TypedExprKind.rename, Ty.rename]
    | some t =>
      refine .pure ?_
      simp [TypedExpr.rename, TypedExprKind.rename, Ty.rename]
  | dict entries =>
    rw [checkExpr, checkExpr, Mode.expected_rename, expectedEntry_rename]
    refine .bind (checkEntries_follows h entries env _ _) fun found => ?_
    obtain ⟨typed, key, value⟩ := found
    rcases key with _ | key
    case none => exact .refused (by simp [TypedExpr.rename, TypedExprKind.rename, Ty.rename])
    rcases value with _ | value
    case none => exact .refused (by simp [TypedExpr.rename, TypedExprKind.rename, Ty.rename])
    exact .pure (by simp [TypedExpr.rename, TypedExprKind.rename, Ty.rename])
  | ident name =>
    rw [checkExpr, checkExpr]
    exact h.checkName_follows
  | assign target value =>
    rw [checkExpr, checkExpr]
    refine .bind (checkExpr_follows h target env (.value none)) fun place => ?_
    rw [TypedExpr.type_rename]
    refine .bind assignmentRole_follows fun role =>
      .bind (checkExpr_follows h value env (.value (some place.type))) fun stored => ?_
    rw [TypedExpr.type_rename]
    cases role with
    | none => exact .pure rfl
    | some role => exact .bind h.expectAssignable_follows fun _ => .pure rfl
  | call callee typeArguments arguments =>
    obtain ⟨kind, calleeSpan⟩ := callee
    have value : CheckFollows ρ (TypedExpr.rename ρ)
        (checkExpr body env (.value none) (Expr.subject ⟨kind, calleeSpan⟩))
        (checkExpr other (env.rename ρ) (.value none) (Expr.subject ⟨kind, calleeSpan⟩)) := by
      cases kind with
      | _ => exact checkExpr_follows h _ env (.value none)
    rw [checkExpr_call, checkExpr_call]
    refine .bind (h.callTarget_follows value) fun _ => h.checkCall_follows ?_
    exact fun call params => checkArguments_follows h arguments env call 1 params
  | field object name =>
    rw [checkExpr, checkExpr, h.enumNamed?_rename]
    cases body.enumNamed? env object with
    | some id => exact h.checkVariant_follows
    | none => exact .bind (checkExpr_follows h object env (.value none)) fun _ => h.checkMember_follows
  | binary operator left right =>
    rw [checkExpr, checkExpr]
    refine .ite ?logical (.ite ?fromRight ?fromLeft)
    case logical =>
      refine .bind (checkExpr_follows h left env (.value (some (.primitive .bool)))) fun leftValue =>
        .bind (checkExpr_follows h right env (.value (some (.primitive .bool)))) fun rightValue => ?_
      rw [TypedExpr.type_rename, TypedExpr.type_rename]
      exact .bind h.expectBool_follows fun _ => .bind h.expectBool_follows fun _ => .pure rfl
    case fromRight =>
      refine .bind (checkExpr_follows h right env (.value none)) fun rightValue => ?_
      rw [TypedExpr.type_rename]
      refine .bind (checkExpr_follows h left env (.value (some rightValue.type))) fun leftValue => ?_
      rw [TypedExpr.type_rename]
      exact .bind h.checkOperator_follows fun _ => .pure rfl
    case fromLeft =>
      refine .bind (checkExpr_follows h left env (.value none)) fun leftValue => ?_
      rw [TypedExpr.type_rename]
      refine .bind (checkExpr_follows h right env (.value (some leftValue.type))) fun rightValue => ?_
      rw [TypedExpr.type_rename]
      exact .bind h.checkOperator_follows fun _ => .pure rfl
  | cond condition thenBranch elseBranch =>
    rw [checkExpr, checkExpr]
    refine .bind (checkExpr_follows h condition env (.value (some (.primitive .bool)))) fun test => ?_
    rw [TypedExpr.type_rename]
    refine .bind h.expectBool_follows fun _ => .bind (checkStatements_follows h thenBranch env mode) fun first => ?_
    rw [← TypedBlock.rename_ofStatements]
    cases mode with
    | statement =>
      cases elseBranch with
      | none => exact .pure rfl
      | some elseBranch =>
        refine .bind (checkStatements_follows h elseBranch env .statement) fun second => .pure ?_
        exact congrArg (fun block => TypedExpr.mk (.cond _ _ (some block)) .unit span)
          (TypedBlock.rename_ofStatements ρ .statement second).symm
    | value expected =>
      cases elseBranch with
      | none => exact .refused rfl
      | some elseBranch =>
        generalize TypedBlock.ofStatements (.value expected) first = thenTyped
        have otherwise : (expected.map (Ty.rename ρ)).or
            (if thenTyped.diverges = true then none else some (thenTyped.type.rename ρ)) =
              (expected.or (if thenTyped.diverges = true then none else some thenTyped.type)).map (Ty.rename ρ) := by
          cases expected with
          | some t => rfl
          | none => cases thenTyped.diverges <;> rfl
        simp only [Mode.rename, TypedBlock.diverges_rename, TypedBlock.type_rename, otherwise]
        refine .bind (checkStatements_follows h elseBranch env (.value _)) fun second => ?_
        have typed := TypedBlock.rename_ofStatements ρ
          (.value (expected.or (if thenTyped.diverges = true then none else some thenTyped.type))) second
        rw [Mode.rename] at typed
        rw [← typed]
        exact .bind h.joinBranches_follows fun _ => .pure rfl

theorem checkEach_follows (h : body.Renames ρ other) (items : List Expr) (env : Env) (slots : List Ty) :
    CheckFollows ρ (List.map (TypedExpr.rename ρ)) (checkEach body env slots items)
      (checkEach other (env.rename ρ) (slots.map (Ty.rename ρ)) items) := by
  cases items with
  | nil => exact .pure rfl
  | cons item rest =>
    rw [checkEach, checkEach, head?_map, ← map_tail]
    exact .bind (checkExpr_follows h item env (.value slots.head?)) fun _ =>
      .bind (checkEach_follows h rest env slots.tail) fun _ => .pure rfl

theorem checkElements_follows (h : body.Renames ρ other) (items : List Expr) (env : Env) (element : Option Ty) :
    CheckFollows ρ (fun found => (found.1.map (TypedExpr.rename ρ), found.2.map (Ty.rename ρ)))
      (checkElements body env element items)
      (checkElements other (env.rename ρ) (element.map (Ty.rename ρ)) items) := by
  cases items with
  | nil => exact .pure rfl
  | cons item rest =>
    rw [checkElements, checkElements]
    refine .bind (checkExpr_follows h item env (.value element)) fun first => ?_
    rw [TypedExpr.type_rename, getD_rename]
    exact .bind h.expectStored_follows fun _ =>
      .bind (checkElements_follows h rest env (some (element.getD first.type))) fun _ => .pure rfl

theorem checkEntries_follows (h : body.Renames ρ other) (entries : List (Expr × Expr)) (env : Env)
    (key value : Option Ty) :
    CheckFollows ρ (fun found => (found.1.map fun entry => (entry.1.rename ρ, entry.2.rename ρ),
        found.2.1.map (Ty.rename ρ), found.2.2.map (Ty.rename ρ)))
      (checkEntries body env key value entries)
      (checkEntries other (env.rename ρ) (key.map (Ty.rename ρ)) (value.map (Ty.rename ρ)) entries) := by
  cases entries with
  | nil => exact .pure rfl
  | cons entry rest =>
    obtain ⟨keyExpr, valueExpr⟩ := entry
    rw [checkEntries, checkEntries]
    refine .bind (checkExpr_follows h keyExpr env (.value key)) fun typedKey =>
      .bind (checkExpr_follows h valueExpr env (.value value)) fun typedValue => ?_
    rw [TypedExpr.type_rename, TypedExpr.type_rename, getD_rename, getD_rename]
    exact .bind h.expectStored_follows fun _ => .bind h.expectStored_follows fun _ =>
      .bind (checkEntries_follows h rest env (some (key.getD typedKey.type)) (some (value.getD typedValue.type)))
        fun _ => .pure rfl

theorem checkArguments_follows (h : body.Renames ρ other) (arguments : List Expr) (env : Env)
    (call : Option OpenCall) (position : Nat) (params : List Ty) :
    CheckFollows ρ (fun found => (found.1.map (TypedExpr.rename ρ), found.2.map (OpenCall.rename ρ)))
      (checkArguments body env call position params arguments)
      (checkArguments other (env.rename ρ) (call.map (OpenCall.rename ρ)) position (params.map (Ty.rename ρ))
        arguments) := by
  cases arguments with
  | nil => exact .pure rfl
  | cons argument rest =>
    cases call with
    | none =>
      rw [Option.map_none, checkArguments, checkArguments, ← map_tail]
      exact .bind (checkExpr_follows h argument env (.value none)) fun _ =>
        .bind (checkArguments_follows h rest env none _ _) fun _ => .pure rfl
    | some call =>
      have expected : (params.head?.map (Ty.rename ρ) >>= (call.rename ρ).closed?) =
          (params.head? >>= call.closed?).map (Ty.rename ρ) := by
        cases params.head? with
        | none => rfl
        | some t => exact call.closed?_rename ρ t
      rw [Option.map_some, checkArguments, checkArguments, head?_map, ← map_tail]
      simp only [expected]
      refine .ite ?_ (.bind (checkExpr_follows h argument env (.value _)) fun first => ?_)
      · refine .bind CheckFollows.report fun _ => .bind (checkArguments_follows h rest env (some call) _ _) fun _ => .pure ?_
        exact congrArg (fun t => (TypedExpr.mk (.literal .none) t argument.span :: _, _)) (getD_rename ρ _ .error)
      · have passed : ∀ next : OpenCall, CheckFollows ρ
            (fun found => (found.1.map (TypedExpr.rename ρ), found.2.map (OpenCall.rename ρ)))
            (do
              let found ← checkArguments body env (some next) (position + 1) params.tail rest
              return (first :: found.1, found.2))
            (do
              let found ← checkArguments other (env.rename ρ) (some (next.rename ρ)) (position + 1)
                (params.tail.map (Ty.rename ρ)) rest
              return (first.rename ρ :: found.1, found.2)) :=
          fun next => .bind (checkArguments_follows h rest env (some next) _ _) fun _ => .pure rfl
        cases params.head? with
        | none => exact passed call
        | some parameter => exact .bind h.acceptArgument_follows passed

theorem checkStatements_follows (h : body.Renames ρ other) (statements : List Statement) (env : Env) (mode : Mode) :
    CheckFollows ρ (List.map (TypedStatement.rename ρ)) (checkStatements body env mode statements)
      (checkStatements other (env.rename ρ) (mode.rename ρ) statements) := by
  cases statements with
  | nil => exact .pure rfl
  | cons statement rest =>
    have last : (if rest.isEmpty = true then mode.rename ρ else .statement) =
        (if rest.isEmpty = true then mode else .statement).rename ρ := by
      split <;> rfl
    rw [checkStatements, checkStatements, last]
    exact .bind (checkStatement_follows h statement env _) fun first =>
      .bind (checkStatements_follows h rest first.2 mode) fun _ => .pure rfl

theorem checkStatement_follows (h : body.Renames ρ other) (statement : Statement) (env : Env) (mode : Mode) :
    CheckFollows ρ (fun found => (found.1.rename ρ, found.2.rename ρ)) (checkStatement body env mode statement)
      (checkStatement other (env.rename ρ) (mode.rename ρ) statement) := by
  cases statement with
  | bind name type initializer span =>
    rw [checkStatement, checkStatement]
    refine .bind (h.lowerWritten_follows type) fun written => ?_
    have expected : (written.map (Option.map (Ty.rename ρ))).join = written.join.map (Ty.rename ρ) := by
      cases written <;> rfl
    rw [expected]
    refine .bind (checkOption_follows h initializer env (.value written.join)) fun value =>
      .bind h.bindingType_follows fun t => .pure ?_
    rw [shareType_eq, shareType_eq]
    rfl
  | expression value =>
    rw [checkStatement, checkStatement]
    exact .bind (checkExpr_follows h value env mode) fun _ => .pure rfl
  | ret value span =>
    rw [checkStatement, checkStatement, h.result]
    refine .bind (checkOption_follows h value env (.value (some body.result))) fun typed => ?_
    cases typed with
    | none => exact .bind h.expectAssignable_follows fun _ => .pure rfl
    | some typed =>
      simp only [TypedExpr.renameOption, TypedExpr.type_rename]
      exact .bind h.expectAssignable_follows fun _ => .pure rfl

theorem checkOption_follows (h : body.Renames ρ other) (value : Option Expr) (env : Env) (mode : Mode) :
    CheckFollows ρ (TypedExpr.renameOption ρ) (checkOption body env mode value)
      (checkOption other (env.rename ρ) (mode.rename ρ) value) := by
  cases value with
  | none => exact .pure rfl
  | some value =>
    rw [checkOption, checkOption]
    exact .bind (checkExpr_follows h value env mode) fun _ => .pure rfl

end

variable (h : body.Renames ρ other)

include h

theorem checkBlock_follows (mode : Mode) : CheckFollows ρ (TypedBlock.rename ρ)
    (body.checkBlock env mode block) (other.checkBlock (env.rename ρ) (mode.rename ρ) block) :=
  .bind (h.checkStatements_follows block env mode) fun _ => .pure (TypedBlock.rename_ofStatements ρ mode _).symm

theorem checkResult_follows :
    CheckFollows ρ (TypedBlock.rename ρ) (body.checkResult env function span block)
      (other.checkResult (env.rename ρ) function span block) := by
  rw [checkResult, checkResult, h.result]
  refine .bind (h.checkBlock_follows (.value (some body.result))) fun typed => ?_
  rw [TypedBlock.diverges_rename, TypedBlock.type_rename]
  cases block.tail? with
  | none => exact .ite (.pure rfl) (.refused rfl)
  | some tail => exact .ite (.pure rfl) (.bind h.expectAssignable_follows fun _ => .pure rfl)

/-- What a body reports of uses of None does not depend on types at all. -/
theorem checkFunctionBody_follows {parameters : List (String × Span)} :
    CheckFollows ρ (TypedBlock.rename ρ) (body.checkFunctionBody env parameters function span block)
      (other.checkFunctionBody (env.rename ρ) parameters function span block) := by
  have unit : other.result = .unit ↔ body.result = .unit := by
    rw [h.result, ← Ty.rename_unit ρ, Ty.rename_inj]
    rfl
  have reported : ∀ typed : TypedBlock, CheckFollows ρ (TypedBlock.rename ρ)
      (do CheckM.reportAll (FlowAnalysis.ofGraph (FlowGraph.ofBody parameters block)).diagnostics; return typed)
      (do
        CheckM.reportAll (FlowAnalysis.ofGraph (FlowGraph.ofBody parameters block)).diagnostics
        return typed.rename ρ) :=
    fun _ => .bind (CheckFollows.reportAll (.refl _)) fun _ => .pure rfl
  rw [checkFunctionBody, checkFunctionBody]
  simp only [unit]
  exact .ite (.bind (h.checkBlock_follows .statement) reported) (.bind h.checkResult_follows reported)

end BodyContext.Renames

end SemanticChecker
