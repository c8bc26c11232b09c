import SemanticChecker.Proofs.Mirror.Program

/-! None literals where a value is needed. The flow analysis follows None through names; a literal that stands where a
value is needed is left to the check of types, which gives it whatever type is expected. So a literal is found only
where nothing else tells its type. In a program without errors none is passed as it stands to a call, and none leads
where a receiver, an object or the operand that decides a type is needed; the other operand, and a branch of a
conditional whose type is known before, may be None without a report. -/
namespace SemanticChecker

open List

mutual

/-- Whether an expression leads with None where nothing tells its type: it is None, or a conditional whose first branch
leads with None, or whose second does after a first that always returns. -/
def Expr.leadsWithNone : Expr → Bool
  | ⟨.literal .none, _⟩ => true
  | ⟨.cond _ thenBranch none, _⟩ => Block.leadsWithNone thenBranch
  | ⟨.cond _ thenBranch (some elseBranch), _⟩ =>
    Block.leadsWithNone thenBranch || (Block.diverges thenBranch && Block.leadsWithNone elseBranch)
  | _ => false

def Block.leadsWithNone : List Statement → Bool
  | [] => false
  | [.expression value] => value.leadsWithNone
  | _ :: rest => Block.leadsWithNone rest

end

structure ValuePlace where
  kind : UseKind
  value : Expr
  /-- Whether nothing else tells its type. -/
  leads : Bool
  needed : kind.requiresValue = true := by rfl

/-- Whether None would be found here: where it is passed as it stands, and where it leads and nothing else does. -/
def ValuePlace.isStray (place : ValuePlace) : Bool :=
  (place.kind == .argument && place.value.isNone) || (place.leads && place.value.leadsWithNone)

/-- The operands of an operator that needs values. The left one is looked at first, unless it is a literal and the
right one is not. -/
def Operator.valuePlaces (operator : Operator) (left right : Expr) : List ValuePlace :=
  if needed : operator.operandUse.requiresValue then
    let fromRight := takesTypeFromRight left right
    [⟨operator.operandUse, left, !fromRight, needed⟩, ⟨operator.operandUse, right, fromRight, needed⟩]
  else []

mutual

/-- The places in an expression where a value is needed. They are those where the flow analysis asks for one. -/
def Expr.valuePlaces : Expr → List ValuePlace
  | ⟨.literal _, _⟩ => []
  | ⟨.ident _, _⟩ => []
  | ⟨.tuple items, _⟩ => placesOfEach items
  | ⟨.list items, _⟩ => placesOfEach items
  | ⟨.dict entries, _⟩ => placesOfEntries entries
  | ⟨.assign target value, _⟩ => target.valuePlaces ++ value.valuePlaces
  | ⟨.call ⟨.field object _, _⟩ _ arguments, _⟩ =>
    { kind := .receiver, value := object, leads := true } :: object.valuePlaces ++ placesOfArguments arguments
  | ⟨.call callee _ arguments, _⟩ => callee.valuePlaces ++ placesOfArguments arguments
  | ⟨.field object _, _⟩ => { kind := .fieldAccess, value := object, leads := true } :: object.valuePlaces
  | ⟨.binary operator left right, _⟩ => operator.valuePlaces left right ++ (left.valuePlaces ++ right.valuePlaces)
  | ⟨.cond condition thenBranch elseBranch, _⟩ =>
    condition.valuePlaces ++ (placesOfStatements thenBranch ++ placesOfBranch elseBranch)

def placesOfEach : List Expr → List ValuePlace
  | [] => []
  | item :: rest => item.valuePlaces ++ placesOfEach rest

def placesOfArguments : List Expr → List ValuePlace
  | [] => []
  | argument :: rest => { kind := .argument, value := argument, leads := false } :: (argument.valuePlaces ++ placesOfArguments rest)

def placesOfEntries : List (Expr × Expr) → List ValuePlace
  | [] => []
  | (key, value) :: rest => key.valuePlaces ++ (value.valuePlaces ++ placesOfEntries rest)

def placesOfBranch : Option (List Statement) → List ValuePlace
  | none => []
  | some branch => placesOfStatements branch

def placesOfStatements : List Statement → List ValuePlace
  | [] => []
  | statement :: rest => statement.valuePlaces ++ placesOfStatements rest

def Statement.valuePlaces : Statement → List ValuePlace
  | .bind _ _ initializer _ => placesOfOption initializer
  | .expression value => value.valuePlaces
  | .ret value _ => placesOfOption value

def placesOfOption : Option Expr → List ValuePlace
  | none => []
  | some value => value.valuePlaces

end

def Supplied (places : List ValuePlace) : Prop :=
  ∀ place ∈ places, place.isStray = false

@[simp] theorem supplied_nil : Supplied [] := fun _ h => by cases h

@[simp] theorem supplied_append {places others : List ValuePlace} :
    Supplied (places ++ others) ↔ Supplied places ∧ Supplied others :=
  forall_mem_append

@[simp] theorem supplied_cons {place : ValuePlace} {rest : List ValuePlace} :
    Supplied (place :: rest) ↔ place.isStray = false ∧ Supplied rest :=
  forall_mem_cons

/-- Whether None is found nowhere in an expression, nor as its value where no type is expected of that. -/
def Expr.SuppliedAs (e : Expr) (mode : Mode) : Prop :=
  Supplied e.valuePlaces ∧ (mode.expected = none → e.leadsWithNone = false)

theorem supplied_operands (operator : Operator) {left right : Expr}
    (decides : (if takesTypeFromRight left right then right else left).leadsWithNone = false) :
    Supplied (operator.valuePlaces left right) := by
  have notArgument : (operator.operandUse == .argument) = false := by cases operator <;> rfl
  rw [Operator.valuePlaces]
  split
  · rw [supplied_cons, supplied_cons, ValuePlace.isStray, ValuePlace.isStray, notArgument]
    by_cases fromRight : takesTypeFromRight left right = true
    · rw [if_pos fromRight] at decides
      simp [fromRight, decides]
    · rw [if_neg fromRight] at decides
      simp [fromRight, decides]
  · exact supplied_nil

namespace Ensures

variable {σ α β : Type} [Reports σ]

theorem before {x : StateM σ α} {f : α → StateM σ β} {Q : α → Prop} {R : β → Prop} (first : Ensures x Q)
    (second : ∀ a, Ensures (f a) R) : Ensures (x >>= f) R :=
  first.bind fun a => (second a).mono fun _ answer _ => answer

end Ensures

namespace BodyContext

section Calls

variable {body : BodyContext} {env : Env} {mode : Mode} {typeArguments : List TypeExpr} {arguments : List Expr}
  {span : Span}

theorem checkCall_supplied (passes : ∀ call params,
      Ensures (checkArguments body env call 1 params arguments) fun _ => Supplied (placesOfArguments arguments))
    (target : CallTarget) : Ensures (body.checkCall env typeArguments arguments span target) fun _ =>
      Supplied (placesOfArguments arguments) := by
  refine (body.openTarget_yields True (fun _ => True) env target typeArguments _ span).1.before fun call => ?_
  refine (passes call _).bind fun answer => ?_
  exact (body.closeTarget_yields True (fun _ => True) env target.callee answer.2 answer.1 span).1.mono fun _ _ supplied => supplied

/-- What is called has no stray None in it; what is left are the arguments. -/
theorem callTarget_supplied {callee : Expr}
    (checks : Ensures (checkExpr body env (.value none) callee.subject) fun _ => callee.subject.SuppliedAs (.value none))
    (typeArguments : List TypeExpr) (arguments : List Expr) : Ensures (body.callTarget env span callee) fun _ => Supplied (placesOfArguments arguments) →
      Supplied (Expr.valuePlaces ⟨.call callee typeArguments arguments, span⟩) := by
  induction callee using callTarget_cases with
  | construct _ _ id =>
    refine (body.constructTarget_yields True (fun _ => True) env id span).1.mono fun _ _ supplied => ?_
    simpa [Expr.valuePlaces] using supplied
  | function => exact .pure fun supplied => by simpa [Expr.valuePlaces] using supplied
  | value callee same =>
    rw [same] at checks
    refine checks.bind fun value => (body.valueTarget_yields True (fun _ => True) env value callee.span).1.mono ?_
    intro _ _ inside supplied
    rw [Expr.valuePlaces]
    · exact supplied_append.2 ⟨inside.1, supplied⟩
    · rintro object _ _ rfl
      exact absurd (congrArg sizeOf same) (by simp [Expr.subject]; omega)
  | method object name calleeSpan =>
    refine checks.bind fun receiver => (body.methodTarget_yields True (fun _ => True) env receiver name calleeSpan span).1.mono ?_
    rintro _ _ ⟨inside, first⟩ supplied
    replace first : object.leadsWithNone = false := first rfl
    simpa [Expr.subject, Expr.valuePlaces, ValuePlace.isStray, first, supplied] using inside
  | variant _ id name calleeSpan found =>
    refine (body.checkVariant_yields True (fun _ => True) env id name calleeSpan).1.before fun callee => ?_
    refine (body.valueTarget_yields True (fun _ => True) env callee calleeSpan).1.mono fun _ _ supplied => ?_
    obtain ⟨enumName, nameSpan, rfl, _⟩ := enumNamed?_eq_some found
    simpa [ValuePlace.isStray, Expr.leadsWithNone, Expr.valuePlaces] using supplied

end Calls

section Checks

variable (body : BodyContext)

mutual

/-- An expression that is checked without a report has no stray None in it, and does not lead with None where nothing
is expected of it. -/
theorem checkExpr_supplied : ∀ (e : Expr) (env : Env) (mode : Mode),
    Ensures (checkExpr body env mode e) fun _ => e.SuppliedAs mode
  | ⟨.literal value, span⟩, env, mode => by
    rw [checkExpr, Expr.SuppliedAs, Expr.valuePlaces]
    refine Ensures.bind (Q := fun _ => mode.expected = none → Expr.leadsWithNone ⟨.literal value, span⟩ = false) ?_
      fun t => .pure fun quiet => ⟨supplied_nil, quiet⟩
    cases value with
    | none =>
      cases known : mode.expected with
      | some t => exact .pure nofun
      | none => exact body.refused
    | _ =>
      refine (body.checkLiteral_yields True (fun _ => True) env mode.expected span _).1.mono fun _ _ _ => ?_
      simp [Expr.leadsWithNone]
  | ⟨.tuple items, span⟩, env, mode => by
    rw [checkExpr, Expr.SuppliedAs, Expr.valuePlaces]
    refine (checkEach_supplied items env _).bind fun typed => .pure fun supplied => ⟨supplied, fun _ => ?_⟩
    simp [Expr.leadsWithNone]
  | ⟨.list items, span⟩, env, mode => by
    rw [checkExpr, Expr.SuppliedAs, Expr.valuePlaces]
    refine (checkElements_supplied items env _).bind fun answer => ?_
    dsimp only
    split
    · exact .pure fun supplied => ⟨supplied, fun _ => by simp [Expr.leadsWithNone]⟩
    · exact body.refused
  | ⟨.dict entries, span⟩, env, mode => by
    rw [checkExpr, Expr.SuppliedAs, Expr.valuePlaces]
    refine (checkEntries_supplied entries env _ _).bind fun answer => ?_
    dsimp only
    split
    · exact .pure fun supplied => ⟨supplied, fun _ => by simp [Expr.leadsWithNone]⟩
    · exact body.refused
  | ⟨.ident name, span⟩, env, mode => by
    rw [checkExpr, Expr.SuppliedAs, Expr.valuePlaces]
    refine (body.checkName_yields True (fun _ => True) env name span).1.mono fun _ _ => ⟨supplied_nil, fun _ => ?_⟩
    simp [Expr.leadsWithNone]
  | ⟨.assign target value, span⟩, env, mode => by
    rw [checkExpr, Expr.SuppliedAs, Expr.valuePlaces]
    refine (checkExpr_supplied target env (.value none)).bind fun place => ?_
    refine (body.assignmentRole_ensures place target.span).before fun role => ?_
    refine (checkExpr_supplied value env (.value (some place.type))).bind fun stored => ?_
    have supplied : Supplied value.valuePlaces → Supplied target.valuePlaces →
        Supplied (target.valuePlaces ++ value.valuePlaces) ∧
          (mode.expected = none → Expr.leadsWithNone ⟨.assign target value, span⟩ = false) :=
      fun second first => ⟨supplied_append.2 ⟨first, second⟩, fun _ => by simp [Expr.leadsWithNone]⟩
    dsimp only
    split
    · refine (body.expectAssignable_ensures _ place.type stored.type value.span).before fun _ => .pure ?_
      exact fun second first => supplied second.1 first.1
    · exact .pure fun second first => supplied second.1 first.1
  | ⟨.call ⟨kind, calleeSpan⟩ typeArguments arguments, span⟩, env, mode => by
    have value : Ensures (checkExpr body env (.value none) (Expr.subject ⟨kind, calleeSpan⟩)) fun _ =>
        (Expr.subject ⟨kind, calleeSpan⟩).SuppliedAs (.value none) := by
      cases kind with
      | _ => exact checkExpr_supplied _ env _
    have passes := fun call params => checkArguments_supplied arguments env call 1 params
    rw [checkExpr_call]
    refine (callTarget_supplied value typeArguments arguments).bind fun target => (checkCall_supplied passes target).mono ?_
    exact fun _ supplied reached => ⟨reached supplied, fun _ => by simp [Expr.leadsWithNone]⟩
  | ⟨.field object name, span⟩, env, mode => by
    have quiet : Expr.leadsWithNone ⟨.field object name, span⟩ = false := by simp [Expr.leadsWithNone]
    rw [checkExpr, Expr.SuppliedAs, Expr.valuePlaces]
    split
    · rename_i id found
      obtain ⟨enumName, nameSpan, rfl, _⟩ := enumNamed?_eq_some found
      refine (body.checkVariant_yields True (fun _ => True) env id name span).1.mono fun _ _ => ⟨?_, fun _ => quiet⟩
      simp [ValuePlace.isStray, Expr.leadsWithNone, Expr.valuePlaces]
    · refine (checkExpr_supplied object env (.value none)).bind fun typed => ?_
      refine (body.checkMember_yields True (fun _ => True) env typed name span).1.mono fun _ _ ⟨inside, first⟩ => ⟨?_, fun _ => quiet⟩
      simp [ValuePlace.isStray, first rfl, inside]
  | ⟨.binary operator left right, span⟩, env, mode => by
    have quiet : Expr.leadsWithNone ⟨.binary operator left right, span⟩ = false := by simp [Expr.leadsWithNone]
    rw [checkExpr, Expr.SuppliedAs, Expr.valuePlaces]
    dsimp only
    split
    · rename_i isLogical
      refine (checkExpr_supplied left env _).bind fun leftValue => ?_
      refine (checkExpr_supplied right env _).bind fun rightValue => ?_
      refine (body.expectAssignable_ensures _ _ leftValue.type _).before fun _ => ?_
      refine (body.expectAssignable_ensures _ _ rightValue.type _).before fun _ => .pure fun second first => ?_
      refine ⟨supplied_append.2 ⟨?_, supplied_append.2 ⟨first.1, second.1⟩⟩, fun _ => quiet⟩
      rw [Operator.valuePlaces, dif_neg (by cases operator <;> simp_all [Operator.isLogical] <;> decide)]
      exact supplied_nil
    · rename_i notLogical
      have plain := Bool.eq_false_iff.2 notLogical
      split
      · rename_i fromRight
        refine (checkExpr_supplied right env _).bind fun rightValue => ?_
        refine (checkExpr_supplied left env _).bind fun leftValue => ?_
        refine (body.checkOperator_yields True (fun _ => True) env plain leftValue rightValue span).1.before fun t => .pure ?_
        intro first second
        refine ⟨supplied_append.2 ⟨?_, supplied_append.2 ⟨first.1, second.1⟩⟩, fun _ => quiet⟩
        exact supplied_operands operator (by rw [if_pos fromRight]; exact second.2 rfl)
      · rename_i notRight
        refine (checkExpr_supplied left env _).bind fun leftValue => ?_
        refine (checkExpr_supplied right env _).bind fun rightValue => ?_
        refine (body.checkOperator_yields True (fun _ => True) env plain leftValue rightValue span).1.before fun t => .pure ?_
        intro second first
        refine ⟨supplied_append.2 ⟨?_, supplied_append.2 ⟨first.1, second.1⟩⟩, fun _ => quiet⟩
        exact supplied_operands operator (by rw [if_neg notRight]; exact first.2 rfl)
  | ⟨.cond condition thenBranch elseBranch, span⟩, env, mode => by
    rw [checkExpr, Expr.SuppliedAs, Expr.valuePlaces]
    refine (checkExpr_supplied condition env _).bind fun test => ?_
    refine (body.expectAssignable_ensures _ _ test.type _).before fun _ => ?_
    refine ((checkStatements_supplied thenBranch env mode).finding
      (checkStatements_renders body thenBranch env mode)).bind fun statements => ?_
    cases elseBranch with
    | none =>
      rw [placesOfBranch]
      cases mode with
      | statement =>
        refine .pure fun ⟨⟨inside, first⟩, _⟩ ⟨test, _⟩ => ⟨?_, fun expected => ?_⟩
        · simpa using ⟨test, inside⟩
        · rw [Expr.leadsWithNone]
          exact first expected
      | value expected => exact body.refused
    | some elseBranch =>
      rw [placesOfBranch]
      cases mode with
      | statement =>
        refine (checkStatements_supplied elseBranch env .statement).bind fun others => .pure ?_
        intro ⟨second, last⟩ ⟨⟨first, leads⟩, _⟩ ⟨test, _⟩
        refine ⟨by simpa using ⟨test, first, second⟩, fun expected => ?_⟩
        rw [Expr.leadsWithNone, leads expected, last expected, Bool.and_false, Bool.or_false]
      | value expected =>
        refine (checkStatements_supplied elseBranch env _).bind fun others => ?_
        refine (body.joinBranches_yields True (fun _ => True) expected _ _ _ _).1.before fun t => .pure ?_
        intro ⟨second, last⟩ ⟨⟨first, leads⟩, same⟩ ⟨test, _⟩
        refine ⟨by simpa using ⟨test, first, second⟩, fun isNone => ?_⟩
        rw [Expr.leadsWithNone, leads isNone, Bool.false_or, Bool.and_eq_false_imp]
        -- After a first branch that always returns, nothing is expected of the second.
        intro diverges
        refine last ?_
        have returns : (TypedBlock.ofStatements (.value expected) statements).diverges = true :=
          same.diverges.trans diverges
        rw [Mode.expected] at isNone
        rw [returns, isNone]
        rfl

theorem checkEach_supplied : ∀ (items : List Expr) (env : Env) (slots : List Ty),
    Ensures (checkEach body env slots items) fun _ => Supplied (placesOfEach items)
  | [], env, slots => by
    rw [checkEach, placesOfEach]
    exact .pure supplied_nil
  | item :: rest, env, slots => by
    rw [checkEach, placesOfEach]
    refine (checkExpr_supplied item env _).bind fun first => ?_
    refine (checkEach_supplied rest env _).bind fun more => .pure fun others first => ?_
    exact supplied_append.2 ⟨first.1, others⟩

theorem checkElements_supplied : ∀ (items : List Expr) (env : Env) (element : Option Ty),
    Ensures (checkElements body env element items) fun _ => Supplied (placesOfEach items)
  | [], env, element => by
    rw [checkElements, placesOfEach]
    exact .pure supplied_nil
  | item :: rest, env, element => by
    rw [checkElements, placesOfEach]
    refine (checkExpr_supplied item env _).bind fun first => ?_
    refine (body.expectStored_ensures .listElement element first.type item.span).before fun _ => ?_
    refine (checkElements_supplied rest env _).bind fun answer => .pure fun others first => ?_
    exact supplied_append.2 ⟨first.1, others⟩

theorem checkEntries_supplied : ∀ (entries : List (Expr × Expr)) (env : Env)
    (key value : Option Ty), Ensures (checkEntries body env key value entries) fun _ => Supplied (placesOfEntries entries)
  | [], env, key, value => by
    rw [checkEntries, placesOfEntries]
    exact .pure supplied_nil
  | (keyExpr, valueExpr) :: rest, env, key, value => by
    rw [checkEntries, placesOfEntries]
    refine (checkExpr_supplied keyExpr env _).bind fun typedKey => ?_
    refine (checkExpr_supplied valueExpr env _).bind fun typedValue => ?_
    refine (body.expectStored_ensures .dictKey key typedKey.type keyExpr.span).before fun _ => ?_
    refine (body.expectStored_ensures .dictValue value typedValue.type valueExpr.span).before fun _ => ?_
    refine (checkEntries_supplied rest env _ _).bind fun answer => .pure fun others second first => ?_
    exact supplied_append.2 ⟨first.1, supplied_append.2 ⟨second.1, others⟩⟩

theorem checkArguments_supplied : ∀ (arguments : List Expr) (env : Env)
    (call : Option OpenCall) (position : Nat) (params : List Ty),
    Ensures (checkArguments body env call position params arguments) fun _ => Supplied (placesOfArguments arguments)
  | [], env, call, position, params => by
    rw [checkArguments, placesOfArguments]
    exact .pure supplied_nil
  | argument :: rest, env, none, position, params => by
    rw [checkArguments, placesOfArguments]
    refine (checkExpr_supplied argument env _).bind fun first => ?_
    refine (checkArguments_supplied rest env none _ _).bind fun answer => .pure fun others ⟨inside, leads⟩ => ?_
    have given : argument.isNone = false := Bool.eq_false_iff.2 fun isNone => by
      have quiet := leads rfl
      rw [isNone_eq isNone, Expr.leadsWithNone] at quiet
      cases quiet
    simp [ValuePlace.isStray, given, inside, others]
  | argument :: rest, env, some call, position, params => by
    rw [checkArguments, placesOfArguments]
    dsimp only
    split
    · refine (body.report_ensures _ _ fun _ => False).bind fun _ => ?_
      exact (checkArguments_supplied rest env _ _ _).bind fun _ => .pure fun _ => False.elim
    · rename_i given
      have supplied : Supplied (placesOfArguments rest) → Supplied argument.valuePlaces →
          Supplied ({ kind := .argument, value := argument, leads := false } :: (argument.valuePlaces ++ placesOfArguments rest)) := by
        intro others inside
        simp [ValuePlace.isStray, given, inside, others]
      refine (checkExpr_supplied argument env _).bind fun first => ?_
      cases params with
      | nil =>
        refine (Ensures.pure (Q := fun _ => True) trivial).before fun next => ?_
        exact (checkArguments_supplied rest env (some next) _ _).bind fun _ => .pure fun others first =>
          supplied others first.1
      | cons parameter params =>
        have accepts := body.acceptArgument_yields (Ty.hereditary_fits (body.place True fun _ => True)) (.inl trivial)
          call position parameter first argument.span
        refine accepts.1.before fun next => ?_
        exact (checkArguments_supplied rest env (some next) _ params).bind fun _ => .pure fun others first =>
          supplied others first.1

theorem checkStatements_supplied : ∀ (statements : List Statement) (env : Env) (mode : Mode),
    Ensures (checkStatements body env mode statements) fun _ =>
      Supplied (placesOfStatements statements) ∧ (mode.expected = none → Block.leadsWithNone statements = false)
  | [], env, mode => by
    rw [checkStatements, placesOfStatements]
    exact .pure ⟨supplied_nil, fun _ => rfl⟩
  | statement :: rest, env, mode => by
    rw [checkStatements, placesOfStatements]
    refine (checkStatement_supplied statement env _).bind fun answer => ?_
    refine (checkStatements_supplied rest answer.2 mode).bind fun more => .pure ?_
    intro ⟨others, last⟩ ⟨first, only⟩
    refine ⟨supplied_append.2 ⟨first, others⟩, fun expected => ?_⟩
    cases rest with
    | nil => exact only expected
    | cons next rest =>
      rw [Block.leadsWithNone]
      · exact last expected
      · nofun

theorem checkStatement_supplied : ∀ (statement : Statement) (env : Env) (mode : Mode),
    Ensures (checkStatement body env mode statement) fun _ =>
      Supplied statement.valuePlaces ∧ (mode.expected = none → Block.leadsWithNone [statement] = false)
  | .bind name type initializer span, env, mode => by
    rw [checkStatement, Statement.valuePlaces]
    refine (body.lowerWritten_yields True (fun _ => True) type).1.before fun written => ?_
    refine (checkOption_supplied initializer env _).bind fun value => ?_
    refine (body.bindingType_yields True (fun _ => True) name span written value).1.before fun t => .pure fun supplied => ?_
    exact ⟨supplied, fun _ => rfl⟩
  | .expression value, env, mode => by
    rw [checkStatement, Statement.valuePlaces, Block.leadsWithNone]
    exact (checkExpr_supplied value env mode).bind fun typed => .pure id
  | .ret value span, env, mode => by
    rw [checkStatement, Statement.valuePlaces]
    refine (checkOption_supplied value env _).bind fun typed => ?_
    exact (body.expectAssignable_ensures _ _ _ _).before fun _ => .pure fun supplied => ⟨supplied, fun _ => rfl⟩

theorem checkOption_supplied : ∀ (value : Option Expr) (env : Env) (mode : Mode),
    Ensures (checkOption body env mode value) fun _ => Supplied (placesOfOption value)
  | none, env, mode => by
    rw [checkOption, placesOfOption]
    exact .pure supplied_nil
  | some value, env, mode => by
    rw [checkOption, placesOfOption]
    exact (checkExpr_supplied value env mode).bind fun typed => .pure fun supplied => supplied.1

end

end Checks

theorem checkFunctionBody_supplied (body : BodyContext) (env : Env) (parameters : List (String × Span))
    (function : String) (span : Span) (block : Block) :
    Ensures (body.checkFunctionBody env parameters function span block) fun _ => Supplied (placesOfStatements block) := by
  have checks : ∀ mode, Ensures (body.checkBlock env mode block) fun _ => Supplied (placesOfStatements block) :=
    fun mode => (checkStatements_supplied body block env mode).bind fun _ => .pure And.left
  have reported : ∀ typed : TypedBlock, Ensures (do
      CheckM.reportAll (FlowAnalysis.ofGraph (FlowGraph.ofBody parameters block)).diagnostics
      return typed) fun _ => True :=
    fun typed => (CheckM.reportAll_ensures (FlowAnalysis.external_diagnostics _)).before fun _ => .pure trivial
  unfold checkFunctionBody
  dsimp only
  split
  · exact (checks .statement).bind fun typed => (reported typed).mono fun _ _ supplied => supplied
  · refine Ensures.bind (Q := fun _ => Supplied (placesOfStatements block)) ?_ fun typed =>
      (reported typed).mono fun _ _ supplied => supplied
    refine (checks _).bind fun typed => ?_
    split
    · exact .pure id
    · dsimp only
      split
      · exact (body.expectAssignable_ensures _ _ _ _).before fun _ => .pure id
      · exact body.refused

end BodyContext

/-- The bodies of the functions that units declare, and of the methods of structs. -/
def declaredBodies (units : List SourceUnit) : List Block :=
  (declaredIn Declaration.function? units).filterMap (·.decl.body) ++
    (declaredIn Declaration.struct? units).flatMap fun source => source.decl.methods.filterMap (·.body)

section Declared

variable {P : Block → Prop} (each : ∀ (body : BodyContext) (env : Env) (parameters : List (String × Span))
  (function : String) (span : Span) (block : Block),
    Ensures (body.checkFunctionBody env parameters function span block) fun _ => P block)

include each

theorem BodyContext.checkFunction_each (body : BodyContext) (decl : FunctionDecl) (signature : Signature)
    (receiver : Option Ty) : Ensures (body.checkFunction decl signature receiver) fun _ => ∀ block ∈ decl.body, P block := by
  cases isBody : decl.body with
  | none =>
    rw [checkFunction, isBody]
    exact .pure fun _ h => by cases h
  | some block =>
    rw [checkFunction, isBody]
    refine (each _ _ _ _ _ block).bind fun _ => .pure fun holds other same => ?_
    cases same
    exact holds

theorem BodyContext.checkMethods_each (body : BodyContext) (own : StructDef) : ∀ methods : List (FunctionDecl × MethodDef),
    Ensures (body.checkMethods own methods) fun _ => ∀ method ∈ methods, ∀ block ∈ method.1.body, P block
  | [] => .pure fun _ h => by cases h
  | (decl, method) :: rest => by
    rw [checkMethods]
    refine (checkFunction_each each _ decl method.signature (some own.selfType)).bind fun block => ?_
    exact (checkMethods_each body own rest).bind fun _ => .pure fun others first => forall_mem_cons.2 ⟨first, others⟩

namespace CheckContext

theorem checkFunction_each (ctx : CheckContext) (own : FunctionDef) :
    Ensures (ctx.checkFunction own) fun _ => ∀ block ∈ own.decl.body, P block :=
  CheckM.inSource_ensures ((BodyContext.checkFunction_each each _ own.decl own.signature none).bind
    fun _ => .pure id) own.unit

theorem checkStruct_each (ctx : CheckContext) (own : StructDef) : Ensures (ctx.checkStruct own) fun _ =>
    ∀ method ∈ own.decl.methods.zip own.shape.methods, ∀ block ∈ method.1.body, P block :=
  CheckM.inSource_ensures ((BodyContext.checkDefaults_yields _ True (fun _ => True) _).1.before fun _ =>
    (BodyContext.checkMethods_each each _ own _).bind fun _ => .pure id) own.unit

theorem checkBodies_each (ctx : CheckContext) : Ensures ctx.checkBodies fun _ =>
    (∀ own ∈ ctx.table.functions, ∀ block ∈ own.decl.body, P block) ∧
      ∀ own ∈ ctx.table.structs, ∀ method ∈ own.decl.methods.zip own.shape.methods, ∀ block ∈ method.1.body, P block := by
  rw [checkBodies, checkStructs_eq_mapM, checkFunctions_eq_mapM]
  refine (Ensures.mapM fun own _ => checkStruct_each each ctx own).bind fun _ => ?_
  refine (Ensures.mapM fun own _ => checkFunction_each each ctx own).bind fun _ => .pure fun functions structs => ⟨?_, ?_⟩
  · exact forall_mem_right functions.flip fun _ _ h => h
  · exact forall_mem_right structs.flip fun _ _ h => h

end CheckContext

/-- In a program without errors every body that is declared is checked, and so what the check of a body ensures holds
of all of them. -/
theorem CheckReport.declaredBodies_each {options : CheckOptions} {units : List SourceUnit}
    (noErrors : (ofUnits options units).log.hasErrors = false) : ∀ block ∈ declaredBodies units, P block := by
  rw [ofUnits, hasErrors_guard, Bool.or_eq_false_iff] at noErrors
  obtain ⟨noErrors, _⟩ := noErrors
  let context := (unguarded options units).context
  obtain ⟨_, _, _, bodies⟩ := (unguarded_hasErrors_eq_false options units).1 noErrors
  obtain ⟨functionsListed, structsListed⟩ := located_eq_declaredIn noErrors
  obtain ⟨new, added, _, answer⟩ := context.checkBodies_each each {}
  have reported : (context.checkBodies.run {}).2.diagnostics = new := added
  obtain ⟨functions, structs⟩ := answer (reported ▸ bodies)
  rw [declaredBodies, forall_mem_append]
  constructor
  · rw [← functionsListed]
    intro block mem
    obtain ⟨_, isOne, isBody⟩ := mem_filterMap.1 mem
    obtain ⟨own, declared, rfl⟩ := mem_map.1 isOne
    exact functions own declared block isBody
  · rw [← structsListed]
    intro block mem
    obtain ⟨_, isOne, inside⟩ := mem_flatMap.1 mem
    obtain ⟨own, declared, rfl⟩ := mem_map.1 isOne
    obtain ⟨decl, isMethod, isBody⟩ := mem_filterMap.1 inside
    have pairs : (own.decl.methods.zip own.shape.methods).map (·.1) = own.decl.methods :=
      map_fst_zip (Nat.le_of_eq (structs_spelled options units own declared).length_eq)
    rw [show own.located.decl.methods = own.decl.methods from rfl, ← pairs] at isMethod
    obtain ⟨method, isPair, rfl⟩ := mem_map.1 isMethod
    exact structs own declared method isPair block isBody

end Declared

namespace CheckReport

/-- In a program without errors no None literal is passed as it stands to a call, and no expression leads with one where
it is a receiver, the object of a field, or the operand of an arithmetic operator or of an order that decides the type
of the other. -/
theorem stray_none_reported (options : CheckOptions) (units : List SourceUnit)
    (noErrors : (ofUnits options units).log.hasErrors = false) :
    ∀ block ∈ declaredBodies units, ∀ place ∈ placesOfStatements block, place.isStray = false :=
  declaredBodies_each BodyContext.checkFunctionBody_supplied noErrors

/-- `struct Cell { size: int64, grow(by: int64) -> int64 { return self.size + by } }` and `main(cell: Cell, much: bool)
-> int64`, which answers `cell.grow(if much { None } else { 1 }) + None`. -/
def cellUnit : SourceUnit :=
  let int : TypeExpr := ⟨.named "int64" [], {}⟩
  let read (name : String) : Expr := ⟨.ident name, {}⟩
  let none : Expr := ⟨.literal .none, {}⟩
  let add (left right : Expr) : Expr := ⟨.binary .add left right, {}⟩
  let grow : FunctionDecl :=
    { name := "grow", parameters := [{ name := "by", type := int }], returns := [int]
      body := some [.ret (some (add ⟨.field (read "self") "size", {}⟩ (read "by"))) {}] }
  let amount : Expr :=
    ⟨.cond (read "much") [.expression none] (some [.expression ⟨.literal (.integer 1), {}⟩]), {}⟩
  let main : FunctionDecl :=
    { name := "main", returns := [int]
      parameters := [{ name := "cell", type := ⟨.named "Cell" [], {}⟩ }, { name := "much", type := ⟨.named "bool" [], {}⟩ }]
      body := some [.ret (some (add ⟨.call ⟨.field (read "cell") "grow", {}⟩ [] [amount], {}⟩ none)) {}] }
  { id := ⟨0⟩
    declarations := [
      .struct { name := "Cell", fields := [{ name := "size", type := int }], methods := [grow] }, .function main] }

theorem stray_none_reported_cell :
    (ofUnits {} [cellUnit]).log.hasErrors = false ∧ (declaredBodies [cellUnit]).length = 2 ∧
    ∀ block ∈ declaredBodies [cellUnit], ∀ place ∈ placesOfStatements block, place.isStray = false := by
  have noErrors : (ofUnits {} [cellUnit]).log.hasErrors = false := by decide +kernel
  exact ⟨noErrors, by decide +kernel, stray_none_reported {} [cellUnit] noErrors⟩

/-- Nothing at all is reported of an operand that is None where the other decides its type, nor of an argument with a
branch that is None where the parameter does. -/
theorem none_operand_unreported :
    (ofUnits {} [cellUnit]).log.entries.length = 0 ∧
    ((declaredBodies [cellUnit]).flatMap placesOfStatements).map (fun place => (place.kind, place.value.isNone)) =
      [(.operand, false), (.operand, true), (.receiver, false), (.argument, false),
        (.operand, false), (.operand, false), (.fieldAccess, false)] := by
  decide +kernel

end CheckReport

end SemanticChecker
