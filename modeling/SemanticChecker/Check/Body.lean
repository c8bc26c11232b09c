import SemanticChecker.Check.Call
import SemanticChecker.Flow.Analysis
import SemanticChecker.Flow.Builder
import SemanticChecker.Json.Number

/-! Checks bodies. An expression is checked against the type that is expected of it, if one is known;
what is wrong is reported, and the error type stands where no type was found. -/
namespace SemanticChecker

inductive Mode where
  | statement
  /-- As a value, of the given type if one is expected. -/
  | value (expected : Option Ty)

def Mode.expected : Mode → Option Ty
  | statement => none
  | value expected => expected

/-- The position that a member of a tuple names: digits, perhaps after a plus sign. -/
def slotIndex? (name : String) : Option Nat :=
  match name.toList with
  | '+' :: digits => NumberText.natural? (UInt64.size - 1) (String.ofList digits)
  | digits => NumberText.natural? (UInt64.size - 1) (String.ofList digits)

namespace BodyContext

/-- The type of a literal. A number takes the kind that is expected if it can, and None any type. -/
def checkLiteral (body : BodyContext) (expected : Option Ty) (span : Span) : Literal → CheckM Ty
  | .integer value => do
    let kind := match expected >>= Ty.primitive? with
      | some kind => if kind.isNumeric then kind else body.program.options.defaultInteger
      | none => body.program.options.defaultInteger
    unless kind.holds value do
      body.report span (.literalRange value kind)
    return .primitive kind
  | .float _ =>
    match expected >>= Ty.primitive? with
    | some kind =>
      return .primitive (if kind.isFloat then kind else body.program.options.defaultFloat)
    | none => return .primitive body.program.options.defaultFloat
  | .string _ => return .primitive .str
  | .boolean _ => return .primitive .bool
  | .none => do
    match expected with
    | some t => return t
    | none =>
      body.report span .untypedNone
      return .error

def checkName (body : BodyContext) (env : Env) (name : String) (span : Span) : CheckM TypedExpr := do
  let unknown : TypedExpr := ⟨.ident name, .error, span⟩
  match env.lookup name with
  | some t => return ⟨.ident name, t, span⟩
  | none =>
    match body.symbol? name with
    | some (.function id) =>
      match body.program.table.function? id with
      | none => return unknown
      | some own =>
        if own.signature.isGeneric then
          body.report span (.genericValue name)
          return unknown
        else return ⟨.functionRef id, own.signature.type, span⟩
    | some _ =>
      body.report span (.typeAsValue name)
      return unknown
    | none =>
      body.report span (.unknownName name)
      return unknown

/-- A variant of an enumeration. Of one that was rejected nothing is known. -/
def checkVariant (body : BodyContext) (id : EnumId) (variant : String) (span : Span) :
    CheckM TypedExpr := do
  let unknown : TypedExpr := ⟨.enumVariant id variant 0, .error, span⟩
  match body.program.declared.enums.get? id with
  | none => return unknown
  | some info =>
    match info.variant? variant with
    | some (index, _) => return ⟨.enumVariant id variant index, .enum id, span⟩
    | none =>
      body.report span (.noVariant info.name variant)
      return unknown

def checkMember (body : BodyContext) (object : TypedExpr) (name : String) (span : Span) :
    CheckM TypedExpr := do
  let field (t : Ty) : TypedExpr := ⟨.field object name, t, span⟩
  match object.type with
  | .struct id arguments =>
    match body.program.fieldType? id arguments name with
    | some t => return field t
    | none =>
      let hasMethod := (body.program.structMethod? id arguments name).isSome
      body.report span
        (if hasMethod then .uncalledMethod name object.type else .noField object.type name)
      return field .error
  | .tuple slots =>
    match slotIndex? name with
    | none =>
      body.report span (.noSlot object.type name)
      return field .error
    | some index =>
      match slots[index]? with
      | some t => return ⟨.tupleSlot object index, t, span⟩
      | none =>
        body.report span (.noSlot object.type name)
        return field .error
  | .error => return field .error
  | other =>
    body.report span (.noField other name)
    return field .error

/-- The role of a value assigned to a target; tuple slots and other expressions are reported. -/
def assignmentRole (body : BodyContext) (target : TypedExpr) (span : Span) : CheckM (Option Role) := do
  match target.kind with
  | .ident name => return some (.assignment name)
  | .field _ name => return some (.fieldAssignment name)
  | .tupleSlot _ _ =>
    body.report span .slotAssignment
    return none
  | _ =>
    body.report span .invalidTarget
    return none

/-- The type of an operator other than `and` and `or` on typed operands. -/
def checkOperator (body : BodyContext) (operator : Operator) (left right : Ty) (span : Span) :
    CheckM Ty := do
  let eitherError := left.isError || right.isError
  let same := eitherError || left == right
  if operator.isEquality then
    unless body.program.isAssignable left right || body.program.isAssignable right left do
      body.report span (.incomparable left right)
    return .primitive .bool
  unless same do
    body.report span (.operandMismatch operator left right)
  if operator.isOrdering then
    if same && !eitherError && !body.program.satisfies left "Ordered" then
      body.report span (.unordered operator left)
    return .primitive .bool
  let concatenation := operator == .add && left == .primitive .str
  if same && !eitherError && !concatenation && !body.program.satisfies left "Numeric" then
    body.report span (.notNumeric operator left)
  return if same then left else .error

/-- The type of a conditional that is used as a value, from its branches. -/
def joinBranches (body : BodyContext) (expected : Option Ty) (thenBranch elseBranch : TypedBlock)
    (thenSpan elseSpan : Span) : CheckM Ty := do
  match thenBranch.diverges, elseBranch.diverges with
  | true, true => return expected.getD .unit
  | true, false => return elseBranch.type
  | false, true => return thenBranch.type
  | false, false =>
    let target := expected.getD thenBranch.type
    if expected.isSome then
      body.expectAssignable .thenBranch target thenBranch.type thenSpan
    body.expectAssignable .elseBranch target elseBranch.type elseSpan
    return target

/-- The type of a declared name, from the type written for it and its first value. -/
def bindingType (body : BodyContext) (name : String) (span : Span) (written : Option (Option Ty))
    (initializer : Option TypedExpr) : CheckM Ty := do
  match written, initializer with
  | some (some t), some value =>
    body.expectAssignable (.initializer name) t value.type value.span
    return t
  | some (some t), none => return t
  | some none, _ => return .error
  | none, some value => return value.type
  | none, none =>
    body.report span (.untypedBinding name)
    return .error

end BodyContext

/-- Statements as a block. Its value is that of the last statement, if it is used as a value. -/
def TypedBlock.ofStatements (mode : Mode) (statements : List TypedStatement) : TypedBlock :=
  let type := match mode, statements.getLast? with
    | .value _, some (.expression value) => value.type
    | _, _ => .unit
  ⟨statements, type, statements.any TypedStatement.diverges⟩

def expectedSlots (expected : Option Ty) (count : Nat) : List Ty :=
  match expected with
  | some (.tuple slots) => if slots.length = count then slots else []
  | _ => []

def expectedElement (expected : Option Ty) : Option Ty :=
  match expected with
  | some (.list element) => some element
  | _ => none

def expectedEntry (expected : Option Ty) : Option Ty × Option Ty :=
  match expected with
  | some (.dict key value) => (some key, some value)
  | _ => (none, none)

def takesTypeFromRight (left right : Expr) : Bool :=
  left.isLiteral && !right.isLiteral

namespace BodyContext

mutual

def checkExpr (body : BodyContext) (env : Env) (mode : Mode) : Expr → CheckM TypedExpr
  | ⟨.literal value, span⟩ => do
    let t ← body.checkLiteral mode.expected span value
    return ⟨.literal value, t, span⟩
  | ⟨.tuple items, span⟩ => do
    let items ← checkEach body env (expectedSlots mode.expected items.length) items
    return ⟨.tuple items, .tuple (items.map TypedExpr.type), span⟩
  | ⟨.list items, span⟩ => do
    let (items, element) ← checkElements body env (expectedElement mode.expected) items
    match element with
    | some t => return ⟨.list items, .list t, span⟩
    | none =>
      body.report span .emptyList
      return ⟨.list items, .list .error, span⟩
  | ⟨.dict entries, span⟩ => do
    let (key, value) := expectedEntry mode.expected
    let (entries, key, value) ← checkEntries body env key value entries
    match key, value with
    | some key, some value => return ⟨.dict entries, .dict key value, span⟩
    | _, _ =>
      body.report span .emptyDict
      return ⟨.dict entries, .error, span⟩
  | ⟨.ident name, span⟩ => body.checkName env name span
  | ⟨.assign target value, span⟩ => do
    let place ← checkExpr body env (.value none) target
    let role ← body.assignmentRole place target.span
    let stored ← checkExpr body env (.value (some place.type)) value
    match role with
    | some role => body.expectAssignable role place.type stored.type value.span
    | none => pure ()
    return ⟨.assign place stored, .unit, span⟩
  | ⟨.call ⟨.field object name, calleeSpan⟩ typeArguments arguments, span⟩ => do
    match body.enumNamed? env object with
    | none =>
      let receiver ← checkExpr body env (.value none) object
      let target ← body.methodTarget receiver name calleeSpan span
      let call ← body.openTarget target typeArguments arguments.length span
      let (arguments, call) ← checkArguments body env call 1 (openParams call) arguments
      body.closeTarget target.callee call arguments span
    | some id =>
      let callee ← body.checkVariant id name calleeSpan
      let target ← body.valueTarget callee calleeSpan
      let call ← body.openTarget target typeArguments arguments.length span
      let (arguments, call) ← checkArguments body env call 1 (openParams call) arguments
      body.closeTarget target.callee call arguments span
  | ⟨.call callee typeArguments arguments, span⟩ => do
    let named := match callee.name? with
      | some name => if (env.lookup name).isSome then none else body.symbol? name
      | none => none
    match named with
    | some (.struct id) =>
      let target ← body.constructTarget id span
      let call ← body.openTarget target typeArguments arguments.length span
      let (arguments, call) ← checkArguments body env call 1 (openParams call) arguments
      body.closeTarget target.callee call arguments span
    | some (.function id) =>
      let target := body.functionTarget id
      let call ← body.openTarget target typeArguments arguments.length span
      let (arguments, call) ← checkArguments body env call 1 (openParams call) arguments
      body.closeTarget target.callee call arguments span
    | _ =>
      let value ← checkExpr body env (.value none) callee
      let target ← body.valueTarget value callee.span
      let call ← body.openTarget target typeArguments arguments.length span
      let (arguments, call) ← checkArguments body env call 1 (openParams call) arguments
      body.closeTarget target.callee call arguments span
  | ⟨.field object name, span⟩ => do
    match body.enumNamed? env object with
    | some id => body.checkVariant id name span
    | none =>
      let object ← checkExpr body env (.value none) object
      body.checkMember object name span
  | ⟨.binary operator left right, span⟩ => do
    if operator.isLogical then
      let bool := Ty.primitive .bool
      let leftValue ← checkExpr body env (.value (some bool)) left
      let rightValue ← checkExpr body env (.value (some bool)) right
      body.expectAssignable (.operand operator) bool leftValue.type left.span
      body.expectAssignable (.operand operator) bool rightValue.type right.span
      return ⟨.binary operator leftValue rightValue, bool, span⟩
    else if takesTypeFromRight left right then
      let rightValue ← checkExpr body env (.value none) right
      let leftValue ← checkExpr body env (.value (some rightValue.type)) left
      let t ← body.checkOperator operator leftValue.type rightValue.type span
      return ⟨.binary operator leftValue rightValue, t, span⟩
    else
      let leftValue ← checkExpr body env (.value none) left
      let rightValue ← checkExpr body env (.value (some leftValue.type)) right
      let t ← body.checkOperator operator leftValue.type rightValue.type span
      return ⟨.binary operator leftValue rightValue, t, span⟩
  | ⟨.cond condition thenBranch elseBranch, span⟩ => do
    let bool := Ty.primitive .bool
    let test ← checkExpr body env (.value (some bool)) condition
    body.expectAssignable .condition bool test.type condition.span
    let thenTyped := TypedBlock.ofStatements mode (← checkStatements body env mode thenBranch)
    match mode, elseBranch with
    | .statement, none => return ⟨.cond test thenTyped none, .unit, span⟩
    | .statement, some elseBranch =>
      let elseTyped := TypedBlock.ofStatements .statement (← checkStatements body env .statement elseBranch)
      return ⟨.cond test thenTyped (some elseTyped), .unit, span⟩
    | .value _, none =>
      body.report span .missingElse
      return ⟨.cond test thenTyped none, .error, span⟩
    | .value expected, some elseBranch =>
      let otherwise := if thenTyped.diverges then none else some thenTyped.type
      let elseMode := Mode.value (expected.or otherwise)
      let elseTyped := TypedBlock.ofStatements elseMode (← checkStatements body env elseMode elseBranch)
      let t ← body.joinBranches expected thenTyped elseTyped (Block.tailSpan thenBranch span)
        (Block.tailSpan elseBranch span)
      return ⟨.cond test thenTyped (some elseTyped), t, span⟩

/-- Expressions in order, each against the slot at its position, if there is one. -/
def checkEach (body : BodyContext) (env : Env) (slots : List Ty) : List Expr → CheckM (List TypedExpr)
  | [] => return []
  | item :: rest => do
    let first ← checkExpr body env (.value slots.head?) item
    return first :: (← checkEach body env slots.tail rest)

/-- The elements of a list. Where no element type is expected, the first element decides it. -/
def checkElements (body : BodyContext) (env : Env) (element : Option Ty) :
    List Expr → CheckM (List TypedExpr × Option Ty)
  | [] => return ([], element)
  | item :: rest => do
    let first ← checkExpr body env (.value element) item
    body.expectStored .listElement element first.type item.span
    let (more, element) ← checkElements body env (some (element.getD first.type)) rest
    return (first :: more, element)

/-- The entries of a dictionary. Where no types are expected, the first entry decides them. -/
def checkEntries (body : BodyContext) (env : Env) (key value : Option Ty) :
    List (Expr × Expr) → CheckM (List (TypedExpr × TypedExpr) × Option Ty × Option Ty)
  | [] => return ([], key, value)
  | (keyExpr, valueExpr) :: rest => do
    let typedKey ← checkExpr body env (.value key) keyExpr
    let typedValue ← checkExpr body env (.value value) valueExpr
    body.expectStored .dictKey key typedKey.type keyExpr.span
    body.expectStored .dictValue value typedValue.type valueExpr.span
    let (more, key, value) ← checkEntries body env (some (key.getD typedKey.type))
      (some (value.getD typedValue.type)) rest
    return ((typedKey, typedValue) :: more, key, value)

/-- The arguments of a call from a position on, against the parameters that are left. Of a call that
was not opened nothing is expected. -/
def checkArguments (body : BodyContext) (env : Env) (call : Option OpenCall) (position : Nat)
    (params : List Ty) : List Expr → CheckM (List TypedExpr × Option OpenCall)
  | [] => return ([], call)
  | argument :: rest => do
    match call with
    | none =>
      let first ← checkExpr body env (.value none) argument
      let (more, call) ← checkArguments body env none (position + 1) params.tail rest
      return (first :: more, call)
    | some call =>
      let expected := params.head? >>= call.closed?
      if argument.isNone then
        body.report argument.span (.nonePassed position call.shape.name)
        let (more, call) ← checkArguments body env (some call) (position + 1) params.tail rest
        return (⟨.literal .none, expected.getD .error, argument.span⟩ :: more, call)
      else
        let first ← checkExpr body env (.value expected) argument
        let call ← match params.head? with
          | some parameter => body.acceptArgument call position parameter first argument.span
          | none => pure call
        let (more, call) ← checkArguments body env (some call) (position + 1) params.tail rest
        return (first :: more, call)

def checkStatements (body : BodyContext) (env : Env) (mode : Mode) :
    List Statement → CheckM (List TypedStatement)
  | [] => return []
  | statement :: rest => do
    let (first, env) ← checkStatement body env (if rest.isEmpty then mode else .statement) statement
    return first :: (← checkStatements body env mode rest)

def checkStatement (body : BodyContext) (env : Env) (mode : Mode) :
    Statement → CheckM (TypedStatement × Env)
  | .bind name type initializer span => do
    let written ← body.lowerWritten type
    let value ← checkOption body env (.value written.join) initializer
    let t := body.shareType env (← body.bindingType name span written value)
    return (.bind name t value span, (name, t) :: env)
  | .expression value => do
    let value ← checkExpr body env mode value
    return (.expression value, env)
  | .ret value span => do
    let value ← checkOption body env (.value (some body.result)) value
    let found := match value with
      | some value => value.type
      | none => .unit
    body.expectAssignable .returnValue body.result found span
    return (.ret value span, env)

def checkOption (body : BodyContext) (env : Env) (mode : Mode) :
    Option Expr → CheckM (Option TypedExpr)
  | none => return none
  | some value => do return some (← checkExpr body env mode value)

end

def checkBlock (body : BodyContext) (env : Env) (mode : Mode) (block : Block) : CheckM TypedBlock := do
  return TypedBlock.ofStatements mode (← checkStatements body env mode block)

/-- A block that has to produce the result of the body, unless every way through it returns. -/
def checkResult (body : BodyContext) (env : Env) (function : String) (span : Span) (block : Block) :
    CheckM TypedBlock := do
  let typed ← body.checkBlock env (.value (some body.result)) block
  unless typed.diverges do
    match block.tail? with
    | some tail => body.expectAssignable .returnValue body.result typed.type tail.span
    | none => body.report span (.missingReturn function body.result)
  return typed

/-- The body of a function whose parameters, with the places they are declared at, are in scope. After
its types, its uses of None are checked. -/
def checkFunctionBody (body : BodyContext) (env : Env) (parameters : List (String × Span))
    (function : String) (span : Span) (block : Block) : CheckM TypedBlock := do
  let typed ←
    if body.result = .unit then body.checkBlock env .statement block
    else body.checkResult env function span block
  let flow := FlowAnalysis.ofGraph (FlowGraph.ofBody parameters block)
  CheckM.reportAll flow.diagnostics
  return typed

end BodyContext

end SemanticChecker
