import Mathlib.Data.List.Forall2
import SemanticChecker.Proofs.Soundness.Members

/-! The typing rules of the typed program. Every rule speaks about one node, the types of its parts and
the names in scope, so a tree that is typed obeys its rule at every node. Unlike the check, the rules give
the error type no part of its own: it may be stored where it is expected, and nowhere else. -/
namespace SemanticChecker

section Assignability

variable (ctx : CheckContext)

mutual

/-- Whether a value of the second type may be stored where the first is expected. -/
inductive CheckContext.Assignable : Ty → Ty → Prop
  | refl (t : Ty) : Assignable t t
  | ancestor {id other : StructId} {arguments parts : List Ty} {layout : Layout} {t : Ty} :
      ctx.layout? id = some layout → t ∈ layout.ancestors →
      t.instantiate (ctx.instantiation id arguments) = .struct other parts →
      Assignable (.struct other parts) (.struct id arguments)
  | tuple {slots found : List Ty} : AssignableAll slots found → Assignable (.tuple slots) (.tuple found)

inductive CheckContext.AssignableAll : List Ty → List Ty → Prop
  | nil : AssignableAll [] []
  | cons {expected found : Ty} {slots rest : List Ty} : Assignable expected found →
      AssignableAll slots rest → AssignableAll (expected :: slots) (found :: rest)

end

end Assignability

theorem Ty.Fits.isError {place : Place} (clean : ¬ place.error) {t : Ty} (h : t.Fits place) : t.isError = false := by
  cases t with
  | error => exact absurd h clean
  | _ => rfl

/-- What the typing rules ask for: the error type is not admitted, and literals that nothing else decides are numbers of
the right kind. -/
structure CheckContext.Strict (error : Prop) (ctx : CheckContext) : Prop where
  clean : ¬ error
  integer : ctx.options.defaultInteger.isInteger = true
  float : ctx.options.defaultFloat.isFloat = true

namespace CheckContext

variable {ctx : CheckContext} {place : Place} {error : Prop}

theorem Assignable.eq_primitive {kind : Primitive} {t : Ty} (h : ctx.Assignable (.primitive kind) t) :
    t = .primitive kind := by
  cases h with
  | refl => rfl

theorem assignable_of_eq (clean : ¬ place.error) {expected found : Ty} (fits : expected.Fits place)
    (done : (expected == found || expected.isError) = true) : ctx.Assignable expected found := by
  rw [Bool.or_eq_true, beq_iff_eq] at done
  rcases done with rfl | isError
  · exact .refl _
  · rw [fits.isError clean] at isError
    cases isError

theorem Regular.assignable_ancestor (h : ctx.Regular error) {id : StructId} {arguments : List Ty} {expected : Ty}
    (composes : ctx.hasAncestor id arguments expected = true) :
    ctx.Assignable expected (.struct id arguments) := by
  unfold hasAncestor at composes
  split at composes
  · cases composes
  · rename_i layout laid
    obtain ⟨t, composed, same⟩ := List.any_eq_true.1 composes
    obtain ⟨other, parts, rfl⟩ := (h.layout_obeys laid).ancestors t composed
    rw [beq_iff_eq, Ty.instantiate_eq_replace] at same
    subst same
    exact .ancestor laid composed (Ty.instantiate_eq_replace _ _)

mutual

/-- Among types without the error type, the check for assignability decides by these rules. -/
theorem Regular.assignable (h : ctx.Regular error) (clean : ¬ place.error) : ∀ {expected found : Ty},
    expected.Fits place → found.Fits place → ctx.isAssignable expected found = true → ctx.Assignable expected found
  | _, .struct id arguments, fits, _, done => by
    unfold isAssignable at done
    rcases Bool.or_eq_true_iff.1 done with same | composes
    · exact assignable_of_eq clean fits same
    · exact h.assignable_ancestor composes
  | expected, .tuple found, fits, fits', done => by
    unfold isAssignable at done
    rcases Bool.or_eq_true_iff.1 done with same | slotwise
    · exact assignable_of_eq clean fits same
    · cases expected with
      | tuple slots => exact .tuple (Regular.assignableAll h clean fits fits' slotwise)
      | _ => cases slotwise
  | _, .error, _, fits', _ => absurd fits' clean
  | _, .primitive _, fits, _, done | _, .list _, fits, _, done | _, .dict _ _, fits, _, done
  | _, .enum _, fits, _, done | _, .function _ _, fits, _, done | _, .parameter _, fits, _, done
  | _, .bounded _ _ _, fits, _, done | _, .slot _, fits, _, done => by
    unfold isAssignable at done
    exact assignable_of_eq clean fits done

theorem Regular.assignableAll (h : ctx.Regular error) (clean : ¬ place.error) : ∀ {expected found : List Ty},
    Ty.FitAll place expected → Ty.FitAll place found → ctx.areAssignable expected found = true → ctx.AssignableAll expected found
  | [], [], _, _, _ => .nil
  | _ :: _, _ :: _, fits, fits', done => by
    rw [areAssignable, Bool.and_eq_true] at done
    exact .cons (Regular.assignable h clean fits.1 fits'.1 done.1) (Regular.assignableAll h clean fits.2 fits'.2 done.2)
  | [], _ :: _, _, _, done => by cases done
  | _ :: _, [], _, _, done => by cases done

end

end CheckContext

/-- Whether an expression is something that can be assigned: a name or a field, and not a slot of a
tuple. -/
def TypedExprKind.IsPlace : TypedExprKind → Prop
  | .ident _ => True
  | .field _ _ => True
  | _ => False

/-- The type arguments of a call stand for the type parameters of what is called. -/
def CallShape.instantiation (shape : CallShape) (typeArguments : List Ty) : Instantiation :=
  .ofArguments shape.typeParameters typeArguments

section Rules

variable (ctx : CheckContext) (result : Ty)

mutual

/-- The rules of expressions, in a body that returns values of type `result`. -/
inductive ExprTyping : Env → TypedExpr → Prop
  | integer {env : Env} {value : Int} {kind : Primitive} {span : Span} : kind.isNumeric = true →
      kind.holds value = true → ExprTyping env ⟨.literal (.integer value), .primitive kind, span⟩
  | float {env : Env} {value : Float} {kind : Primitive} {span : Span} : kind.isFloat = true →
      ExprTyping env ⟨.literal (.float value), .primitive kind, span⟩
  | string {env : Env} {text : String} {span : Span} :
      ExprTyping env ⟨.literal (.string text), .primitive .str, span⟩
  | boolean {env : Env} {value : Bool} {span : Span} :
      ExprTyping env ⟨.literal (.boolean value), .primitive .bool, span⟩
  | none {env : Env} {t : Ty} {span : Span} : ExprTyping env ⟨.literal .none, t, span⟩
  | enumVariant {env : Env} {id : EnumId} {name : String} {index : Nat} {variant : EnumVariant} {span : Span} :
      ctx.declared.enums.variant? id name = some (index, variant) →
      ExprTyping env ⟨.enumVariant id name index, .enum id, span⟩
  | tuple {env : Env} {items : List TypedExpr} {span : Span} : (∀ item ∈ items, ExprTyping env item) →
      ExprTyping env ⟨.tuple items, .tuple (items.map TypedExpr.type), span⟩
  | list {env : Env} {items : List TypedExpr} {element : Ty} {span : Span} :
      (∀ item ∈ items, ExprTyping env item) → (∀ item ∈ items, ctx.Assignable element item.type) →
      ExprTyping env ⟨.list items, .list element, span⟩
  | dict {env : Env} {entries : List (TypedExpr × TypedExpr)} {key value : Ty} {span : Span} :
      (∀ entry ∈ entries, ExprTyping env entry.1) → (∀ entry ∈ entries, ExprTyping env entry.2) →
      (∀ entry ∈ entries, ctx.Assignable key entry.1.type) →
      (∀ entry ∈ entries, ctx.Assignable value entry.2.type) →
      ExprTyping env ⟨.dict entries, .dict key value, span⟩
  | ident {env : Env} {name : String} {t : Ty} {span : Span} : env.lookup name = some t →
      ExprTyping env ⟨.ident name, t, span⟩
  | functionRef {env : Env} {id : FunctionId} {own : FunctionDef} {span : Span} :
      ctx.table.function? id = some own → own.signature.isGeneric = false →
      ExprTyping env ⟨.functionRef id, own.signature.type, span⟩
  | assign {env : Env} {target value : TypedExpr} {span : Span} : ExprTyping env target → target.kind.IsPlace →
      ExprTyping env value → ctx.Assignable target.type value.type →
      ExprTyping env ⟨.assign target value, .unit, span⟩
  | call {env : Env} {callee : Callee} {shape : CallShape} {typeArguments : List Ty} {arguments : List TypedExpr}
      {span : Span} : CalleeTyping env callee shape → typeArguments.length = shape.typeParameters.length →
      shape.required ≤ arguments.length → arguments.length ≤ shape.params.length →
      (∀ argument ∈ arguments, ExprTyping env argument) →
      (∀ pair ∈ shape.params.zip arguments,
        ctx.Assignable (pair.1.instantiate (shape.instantiation typeArguments)) pair.2.type) →
      ExprTyping env ⟨.call callee typeArguments arguments,
        .ofReturns (shape.returns.map (Ty.instantiate (shape.instantiation typeArguments))), span⟩
  | field {env : Env} {object : TypedExpr} {id : StructId} {arguments : List Ty} {name : String} {t : Ty}
      {span : Span} : ExprTyping env object → object.type = .struct id arguments →
      ctx.fieldType? id arguments name = some t → ExprTyping env ⟨.field object name, t, span⟩
  | tupleSlot {env : Env} {tuple : TypedExpr} {slots : List Ty} {index : Nat} {t : Ty} {span : Span} :
      ExprTyping env tuple → tuple.type = .tuple slots → slots[index]? = some t →
      ExprTyping env ⟨.tupleSlot tuple index, t, span⟩
  | logical {env : Env} {operator : Operator} {left right : TypedExpr} {span : Span} :
      operator.isLogical = true → ExprTyping env left → ExprTyping env right →
      left.type = .primitive .bool → right.type = .primitive .bool →
      ExprTyping env ⟨.binary operator left right, .primitive .bool, span⟩
  | equality {env : Env} {operator : Operator} {left right : TypedExpr} {span : Span} :
      operator.isEquality = true → ExprTyping env left → ExprTyping env right →
      ctx.Assignable left.type right.type ∨ ctx.Assignable right.type left.type →
      ExprTyping env ⟨.binary operator left right, .primitive .bool, span⟩
  | ordering {env : Env} {operator : Operator} {left right : TypedExpr} {span : Span} :
      operator.isOrdering = true → ExprTyping env left → ExprTyping env right → left.type = right.type →
      ctx.satisfies left.type "Ordered" = true →
      ExprTyping env ⟨.binary operator left right, .primitive .bool, span⟩
  | arithmetic {env : Env} {operator : Operator} {left right : TypedExpr} {span : Span} :
      operator.isArithmetic = true → ExprTyping env left → ExprTyping env right → left.type = right.type →
      ctx.satisfies left.type "Numeric" = true ∨ operator = .add ∧ left.type = .primitive .str →
      ExprTyping env ⟨.binary operator left right, left.type, span⟩
  | condOnly {env : Env} {condition : TypedExpr} {thenBranch : TypedBlock} {span : Span} :
      ExprTyping env condition → condition.type = .primitive .bool → BlockTyping env thenBranch →
      ExprTyping env ⟨.cond condition thenBranch none, .unit, span⟩
  | cond {env : Env} {condition : TypedExpr} {thenBranch elseBranch : TypedBlock} {t : Ty} {span : Span} :
      ExprTyping env condition → condition.type = .primitive .bool →
      BlockTyping env thenBranch → BlockTyping env elseBranch →
      (thenBranch.diverges = false → ctx.Assignable t thenBranch.type) →
      (elseBranch.diverges = false → ctx.Assignable t elseBranch.type) →
      ExprTyping env ⟨.cond condition thenBranch (some elseBranch), t, span⟩

/-- What is called, and what its arguments are checked against. -/
inductive CalleeTyping : Env → Callee → CallShape → Prop
  | function {env : Env} {id : FunctionId} {own : FunctionDef} : ctx.table.function? id = some own →
      CalleeTyping env (.function id) (.ofSignature own.decl.name own.signature)
  | construct {env : Env} {id : StructId} {own : StructDef} {layout : Layout} :
      ctx.table.struct? id = some own → ctx.layout? id = some layout → (ctx.structRef id).concrete = true →
      CalleeTyping env (.construct (ctx.structRef id)) (.ofLayout own layout)
  | value {env : Env} {value : TypedExpr} {name : String} {params returns : List Ty} : ExprTyping env value →
      value.type = .function params returns → CalleeTyping env (.value value) (.ofTypes name params returns)
  | method {env : Env} {receiver : TypedExpr} {id origin : StructId} {arguments : List Ty} {name : String}
      {signature : Signature} : ExprTyping env receiver → receiver.type = .struct id arguments →
      ctx.structMethod? id arguments name = some (origin, signature) →
      CalleeTyping env (.method receiver origin name) (.ofSignature name signature)
  | builtin {env : Env} {receiver : TypedExpr} {name : String} {params returns : List Ty} :
      ExprTyping env receiver → receiver.type.builtinMethod? name = some (.function params returns) →
      CalleeTyping env (.builtin receiver name) (.ofTypes name params returns)
  | boundMethod {env : Env} {receiver : TypedExpr} {parameter bound name : String}
      {arguments params returns : List Ty} : ExprTyping env receiver →
      receiver.type = .bounded parameter bound arguments →
      ctx.bounds.method? ⟨bound, arguments⟩ name = some (.function params returns) →
      CalleeTyping env (.boundMethod receiver name) (.ofTypes name params returns)

/-- Statements in order; a name that is declared is in scope in those after it. -/
inductive StatementsTyping : Env → List TypedStatement → Prop
  | nil {env : Env} : StatementsTyping env []
  | bind {env : Env} {name : String} {t : Ty} {initializer : Option TypedExpr} {span : Span}
      {rest : List TypedStatement} : (∀ value ∈ initializer, ExprTyping env value) →
      (∀ value ∈ initializer, ctx.Assignable t value.type) → StatementsTyping ((name, t) :: env) rest →
      StatementsTyping env (.bind name t initializer span :: rest)
  | expression {env : Env} {value : TypedExpr} {rest : List TypedStatement} : ExprTyping env value →
      StatementsTyping env rest → StatementsTyping env (.expression value :: rest)
  | ret {env : Env} {value : Option TypedExpr} {span : Span} {rest : List TypedStatement} :
      (∀ found ∈ value, ExprTyping env found) → ctx.Assignable result (value.elim .unit TypedExpr.type) →
      StatementsTyping env rest → StatementsTyping env (.ret value span :: rest)

/-- A block yields nothing, or the value of its last statement. -/
inductive BlockTyping : Env → TypedBlock → Prop
  | nothing {env : Env} {statements : List TypedStatement} : StatementsTyping env statements →
      BlockTyping env ⟨statements, .unit, statements.any TypedStatement.diverges⟩
  | value {env : Env} {statements : List TypedStatement} {value : TypedExpr} : StatementsTyping env statements →
      statements.getLast? = some (.expression value) →
      BlockTyping env ⟨statements, value.type, statements.any TypedStatement.diverges⟩

end

end Rules

/-- The rule of a function's body: it yields a value of the type of the result, unless it has none to yield or
every way through the body returns. -/
structure BodyTyping (ctx : CheckContext) (result : Ty) (env : Env) (block : TypedBlock) : Prop where
  typed : BlockTyping ctx result env block
  yields : result = .unit ∨ block.diverges = true ∨
    ∃ value, block.statements.getLast? = some (.expression value) ∧ ctx.Assignable result value.type

structure FunctionOutline where
  name : String
  params : List (String × Ty)
  returns : List Ty
  statements : Option Nat
  deriving DecidableEq

def TypedFunction.outline (function : TypedFunction) : FunctionOutline :=
  ⟨function.name, function.params, function.returns, function.body.map (·.statements.length)⟩

def Signature.outline (s : Signature) (name : String) (decl : FunctionDecl) : FunctionOutline :=
  ⟨name, s.params, s.returns, decl.body.map List.length⟩

/-- The rule of a function: it is what is declared, and in its body its parameters are in scope, a later one
before an earlier one, and so is the receiver of a method. -/
structure TypedFunction.Typed (ctx : CheckContext) (receiver : Option Ty) (declared : FunctionOutline)
    (function : TypedFunction) : Prop where
  outline : function.outline = declared
  body : ∀ block ∈ function.body, BodyTyping ctx (.ofReturns function.returns)
    (function.params.reverse ++ receiver.toList.map fun t => ("self", t)) block

/-- The rule of a struct: every method that it declares obeys its rule, and so does every default of a
field. -/
structure TypedStruct.Typed (ctx : CheckContext) (own : StructDef) (struct : TypedStruct) : Prop where
  names : struct.methods.map TypedFunction.name = own.decl.methods.map FunctionDecl.name
  methods : List.Forall₂ (fun (decl, method) => TypedFunction.Typed ctx (some own.selfType)
    (method.signature.outline method.name decl)) (own.decl.methods.zip own.shape.methods) struct.methods
  defaults : ∀ field ∈ struct.fields, ∀ value ∈ field.default, ExprTyping ctx .unit [] value

/-- The rules of a program: every declared function and struct has its typed counterpart, and that obeys its
rule. -/
structure TypedProgram.Typed (ctx : CheckContext) (program : TypedProgram) : Prop where
  functions : List.Forall₂ (fun own => TypedFunction.Typed ctx none (own.signature.outline own.name own.decl))
    ctx.table.functions program.functions
  structs : List.Forall₂ (TypedStruct.Typed ctx) ctx.table.structs program.structs

end SemanticChecker
