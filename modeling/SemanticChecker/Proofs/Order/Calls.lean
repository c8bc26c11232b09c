import SemanticChecker.Check.Call
import SemanticChecker.Proofs.Order.Contexts

/-! Calls under other numbers: what is called takes the same, the same slots stand for the same types, and the same
type arguments are found. -/
namespace SemanticChecker

open List

theorem Follows.ite {σ α β : Type} {like : σ → σ → Prop} {f : α → β} {c : Prop} [Decidable c] {x y : StateM σ α}
    {x' y' : StateM σ β} (yes : Follows like f x x') (no : Follows like f y y') :
    Follows like f (if c then x else y) (if c then x' else y') := by
  split
  · exact yes
  · exact no

/-- Whether as much was checked: as many slots were made, and reports are alike. -/
structure CheckState.Alike (ρ : Renaming) (s s' : CheckState) : Prop where
  nextSlot : s'.nextSlot = s.nextSlot + ρ.shift
  diagnostics : ReportsAlike s.diagnostics s'.diagnostics

abbrev CheckFollows {α β : Type} (ρ : Renaming) (f : α → β) (work : CheckM α) (other : CheckM β) : Prop :=
  Follows (CheckState.Alike ρ) f work other

namespace CheckFollows

variable {ρ : Renaming}

theorem reportAll {ds ds' : List Diagnostic} (alike : ReportsAlike ds ds') :
    CheckFollows ρ id (CheckM.reportAll ds) (CheckM.reportAll ds') :=
  .changing fun _ _ before => ⟨before.nextSlot, before.diagnostics.append alike⟩

theorem report {body other : BodyContext} {span : Span} {problem problem' : Problem} :
    CheckFollows ρ id (body.report span problem) (other.report span problem') :=
  reportAll (.cons (.inr ⟨problem.isError_diagnostic .., problem'.isError_diagnostic ..⟩) .nil)

theorem freshSlot : CheckFollows ρ (Ty.rename ρ) CheckM.freshSlot CheckM.freshSlot := by
  intro s s' alike
  refine ⟨congrArg Ty.slot alike.nextSlot, ?_, alike.diagnostics⟩
  exact (congrArg (· + 1) alike.nextSlot).trans (Nat.add_right_comm ..)

theorem freshSlots (types : List Ty) : CheckFollows ρ (Instantiation.rename ρ) (CheckM.freshSlots types)
    (CheckM.freshSlots (types.map (Ty.rename ρ))) := by
  induction types with
  | nil => exact .pure rfl
  | cons t rest ih =>
    rw [map_cons, CheckM.freshSlots, CheckM.freshSlots, Ty.parameterName?_rename]
    cases t.parameterName? with
    | none => exact ih
    | some name => exact .bind freshSlot fun _ => .bind ih fun _ => .pure rfl

end CheckFollows

theorem Follows.refused {ρ : Renaming} {body other : BodyContext} {span : Span} {problem problem' : Problem} {α β : Type}
    {f : α → β} {a : α} {b : β} (same : b = f a) : CheckFollows ρ f (do body.report span problem; return a)
      (do other.report span problem'; return b) :=
  .bind CheckFollows.report fun _ => .pure same

structure BodyContext.Renames (ρ : Renaming) (body other : BodyContext) : Prop where
  program : body.program.Renames ρ other.program
  module : other.module = body.module
  typeParameters : other.typeParameters = body.typeParameters.map (Ty.rename ρ)
  result : other.result = body.result.rename ρ

def CallShape.rename (ρ : Renaming) (shape : CallShape) : CallShape :=
  { shape with
    typeParameters := shape.typeParameters.map (Ty.rename ρ)
    params := shape.params.map (Ty.rename ρ)
    returns := shape.returns.map (Ty.rename ρ) }

def CallTarget.rename (ρ : Renaming) (target : CallTarget) : CallTarget :=
  ⟨target.callee.rename ρ, target.shape.map (CallShape.rename ρ)⟩

def OpenCall.rename (ρ : Renaming) (call : OpenCall) : OpenCall :=
  ⟨call.shape.rename ρ, call.slots.rename ρ, call.unifier.rename ρ⟩

def BodyContext.BoundGoal.rename (ρ : Renaming) (goal : BoundGoal) : BoundGoal :=
  ⟨goal.parameter, goal.slot.rename ρ, goal.bound.rename ρ⟩

namespace CallShape

variable (ρ : Renaming)

theorem rename_ofTypes (name : String) (params returns : List Ty) :
    (ofTypes name params returns).rename ρ =
      ofTypes name (params.map (Ty.rename ρ)) (returns.map (Ty.rename ρ)) := by
  simp [ofTypes, rename]

theorem rename_ofSignature (name : String) (s : Signature) :
    (ofSignature name s).rename ρ = ofSignature name (s.rename ρ) := by
  simp [ofSignature, rename]

theorem rename_ofLayout (own : StructDef) (layout : Layout) :
    (ofLayout own layout).rename ρ = ofLayout (own.rename ρ) (layout.rename ρ) := by
  rw [ofLayout, ofLayout, StructDef.selfType_rename, Layout.requiredArity_rename]
  simp [rename, Layout.rename, ResolvedField.rename, StructDef.rename, Function.comp_def]
  rfl

end CallShape

namespace OpenCall

variable (ρ : Renaming) (call : OpenCall)

theorem params_rename : (call.rename ρ).params = call.params.map (Ty.rename ρ) := by
  simp [params, rename, CallShape.rename]

theorem closed?_rename (t : Ty) : (call.rename ρ).closed? (t.rename ρ) = (call.closed? t).map (Ty.rename ρ) := by
  simp only [closed?, rename, Unifier.resolve_rename, Ty.hasSlot_rename]
  split <;> rfl

end OpenCall

/-! What is done without looking at what is declared. -/
namespace CheckFollows

variable {ρ : Renaming} {body other : BodyContext}

theorem valueTarget {callee : TypedExpr} {span : Span} :
    CheckFollows ρ (CallTarget.rename ρ) (body.valueTarget callee span) (other.valueTarget (callee.rename ρ) span) := by
  rw [BodyContext.valueTarget, BodyContext.valueTarget, TypedExpr.type_rename]
  cases callee.type with
  | function params returns =>
    refine .pure ?_
    simp [CallTarget.rename, CallShape.rename_ofTypes, Callee.rename]
  | error => exact .pure rfl
  | _ => exact .refused rfl

theorem memberTarget {callee : Callee} {receiver : Ty} {name : String} {method : Option Ty} {span : Span} :
    CheckFollows ρ (CallTarget.rename ρ) (body.memberTarget callee receiver name method span)
      (other.memberTarget (callee.rename ρ) (receiver.rename ρ) name (method.map (Ty.rename ρ)) span) := by
  cases method with
  | none => exact .refused rfl
  | some t =>
    cases t with
    | function params returns =>
      refine .pure ?_
      simp [CallTarget.rename, CallShape.rename_ofTypes]
    | _ => exact .refused rfl

theorem fieldTarget {receiver : TypedExpr} {type : Option Ty} {name : String} {calleeSpan span : Span} :
    CheckFollows ρ (CallTarget.rename ρ) (body.fieldTarget receiver type name calleeSpan span)
      (other.fieldTarget (receiver.rename ρ) (type.map (Ty.rename ρ)) name calleeSpan span) := by
  have same : (type.map (Ty.rename ρ)).getD .error = (type.getD .error).rename ρ := by
    cases type <;> rfl
  rw [BodyContext.fieldTarget, BodyContext.fieldTarget, same, TypedExpr.type_rename]
  exact memberTarget

theorem unify {u : Unifier} {role role' : Role} {expected found : Ty} {span : Span} :
    CheckFollows ρ (Unifier.rename ρ) (body.unify u role expected found span)
      (other.unify (u.rename ρ) role' (expected.rename ρ) (found.rename ρ) span) := by
  obtain ⟨same, clash⟩ := u.unify_rename ρ expected found
  rw [BodyContext.unify, BodyContext.unify, same, clash]
  cases (u.unify expected found).clash with
  | none => exact .pure rfl
  | some error => exact .refused rfl

theorem unifyBound {role role' : Role} {span : Span} {u : Unifier} (pairs : List (Ty × Ty)) :
    CheckFollows ρ (Unifier.rename ρ) (body.unifyBound role span u pairs)
      (other.unifyBound role' span (u.rename ρ) (renamePairs ρ pairs)) := by
  induction pairs generalizing u with
  | nil => exact .pure rfl
  | cons pair rest ih =>
    obtain ⟨argument, binding⟩ := pair
    rw [renamePairs, map_cons, BodyContext.unifyBound, BodyContext.unifyBound, Ty.isError_rename]
    exact .ite ih (.bind unify fun _ => ih)

theorem foundTypeArguments {call : OpenCall} {span : Span} (parameters : List Ty) :
    CheckFollows ρ (List.map (Ty.rename ρ)) (body.foundTypeArguments call span parameters)
      (other.foundTypeArguments (call.rename ρ) span (parameters.map (Ty.rename ρ))) := by
  induction parameters with
  | nil => exact .pure rfl
  | cons parameter rest ih =>
    rw [map_cons, BodyContext.foundTypeArguments, BodyContext.foundTypeArguments, Ty.parameterName?_rename]
    cases parameter.parameterName? with
    | none => exact ih
    | some name =>
      have slot : (call.rename ρ).slots.get? name = (call.slots.get? name).map (Ty.rename ρ) := call.slots.get?_rename ρ name
      simp only [slot, Option.map_map, Function.comp_def, call.closed?_rename]
      cases call.slots.get? name with
      | none => exact ih
      | some slot =>
        simp only [Option.map_some]
        cases call.closed? slot with
        | some t => exact .bind ih fun _ => .pure rfl
        | none => exact .bind report fun _ => .bind ih fun _ => .pure rfl

end CheckFollows

namespace BodyContext

theorem boundGoals_rename (ρ : Renaming) (call : OpenCall) :
    boundGoals (call.rename ρ) = (boundGoals call).map (BoundGoal.rename ρ) := by
  rw [boundGoals, boundGoals, OpenCall.rename, CallShape.rename, filterMap_map, map_filterMap]
  refine congrArg (List.filterMap · call.shape.typeParameters) (funext fun parameter => ?_)
  simp only [Function.comp_apply, CheckContext.Renames.boundOf?_rename]
  cases CheckContext.boundOf? parameter with
  | none => rfl
  | some entry =>
    simp only [Option.map_some, Option.bind_eq_bind, Option.bind_some, Instantiation.get?_rename]
    cases call.slots.get? entry.1 <;> rfl

theorem openParams_rename (ρ : Renaming) (call : Option OpenCall) :
    openParams (call.map (OpenCall.rename ρ)) = (openParams call).map (Ty.rename ρ) := by
  cases call with
  | none => rfl
  | some call => exact call.params_rename ρ

namespace Renames

variable {ρ : Renaming} {body other : BodyContext} (h : body.Renames ρ other)

include h

variable {role role' : Role} {found : Ty} {span : Span} {call : OpenCall} {typeArguments : List TypeExpr}
  {argumentCount : Nat}

theorem expectAssignable_follows {expected : Ty} :
    CheckFollows ρ id (body.expectAssignable role expected found span)
      (other.expectAssignable role' (expected.rename ρ) (found.rename ρ) span) := by
  rw [expectAssignable, expectAssignable, h.program.isAssignable_rename]
  exact .ite (.pure rfl) CheckFollows.report

theorem expectStored_follows {expected : Option Ty} :
    CheckFollows ρ id (body.expectStored role expected found span)
      (other.expectStored role' (expected.map (Ty.rename ρ)) (found.rename ρ) span) := by
  cases expected with
  | none => exact .pure rfl
  | some t => exact h.expectAssignable_follows

theorem lowerType_follows (type : TypeExpr) :
    CheckFollows ρ (Option.map (Ty.rename ρ)) (body.lowerType type) (other.lowerType type) := by
  have scope : (body.program.declared.scope body.module body.typeParameters).Renames ρ
      (other.program.declared.scope other.module other.typeParameters) := by
    rw [h.module, h.typeParameters]
    exact h.program.declared.scope _ _
  obtain ⟨same, found⟩ := scope.lowerReported_follows type {} {} (.empty ρ)
  have pending : ∀ bounds : List PendingBound, ReportsAlike (bounds.flatMap body.program.checkPending)
      ((bounds.map (PendingBound.rename ρ)).flatMap other.program.checkPending) := by
    intro bounds
    induction bounds with
    | nil => exact .nil
    | cons bound rest ih => exact (h.program.checkPending_alike bound).reports.append ih
  refine .bind (CheckFollows.reportAll found.diagnostics.reports) fun _ =>
    .bind (CheckFollows.reportAll ?_) fun _ => .pure same
  exact found.pending ▸ pending _

theorem lowerWritten_follows (type : Option TypeExpr) :
    CheckFollows ρ (Option.map (Option.map (Ty.rename ρ))) (body.lowerWritten type) (other.lowerWritten type) := by
  cases type with
  | none => exact .pure rfl
  | some type => exact .bind (h.lowerType_follows type) fun _ => .pure rfl

theorem symbol?_rename (name : String) : other.symbol? name = (body.symbol? name).map (Symbol.rename ρ) := by
  rw [symbol?, symbol?, h.module, h.program.table.resolveName, Option.map_map, Option.map_map]
  rfl

theorem functionTarget_rename (id : FunctionId) :
    other.functionTarget (ρ.function id) = (body.functionTarget id).rename ρ := by
  rw [functionTarget, functionTarget, CallTarget.rename, h.program.table.function?, Option.map_map, Option.map_map]
  refine congrArg (CallTarget.mk _) (congrFun (congrArg Option.map (funext fun own => ?_)) _)
  exact (CallShape.rename_ofSignature ..).symm

theorem constructTarget_follows {id : StructId} :
    CheckFollows ρ (CallTarget.rename ρ) (body.constructTarget id span) (other.constructTarget (ρ.struct id) span) := by
  rw [constructTarget, constructTarget, h.program.structRef_rename, h.program.table.struct?, h.program.layout?_rename]
  cases body.program.table.struct? id with
  | none => exact .pure rfl
  | some own =>
    cases body.program.layout? id with
    | none => exact .pure rfl
    | some layout =>
      have answer : CheckFollows ρ (CallTarget.rename ρ)
          (return ⟨.construct (body.program.structRef id), some (.ofLayout own layout)⟩)
          (return ⟨.construct ((body.program.structRef id).rename ρ), some (.ofLayout (own.rename ρ) (layout.rename ρ))⟩) :=
        .pure (congrArg (fun shape => CallTarget.mk _ (some shape)) (CallShape.rename_ofLayout ..).symm)
      exact .ite answer (.bind CheckFollows.report fun _ => answer)

theorem methodTarget_follows {receiver : TypedExpr} {name : String} {calleeSpan : Span} :
    CheckFollows ρ (CallTarget.rename ρ) (body.methodTarget receiver name calleeSpan span)
      (other.methodTarget (receiver.rename ρ) name calleeSpan span) := by
  have builtin : ∀ t : Ty, CheckFollows ρ (CallTarget.rename ρ)
      (body.memberTarget (.builtin receiver name) t name (t.builtinMethod? name) span)
      (other.memberTarget (.builtin (receiver.rename ρ) name) (t.rename ρ) name
        ((t.rename ρ).builtinMethod? name) span) := by
    intro t
    rw [Ty.builtinMethod?_rename]
    exact CheckFollows.memberTarget
  rw [methodTarget, methodTarget, TypedExpr.type_rename]
  cases receiver.type with
  | struct id arguments =>
    simp only [Ty.rename, Ty.renameAll_eq_map, h.program.structMethod?_rename]
    cases body.program.structMethod? id arguments name with
    | some found =>
      refine .pure ?_
      simp [CallTarget.rename, CallShape.rename_ofSignature, Callee.rename]
    | none =>
      simp only [h.program.fieldType?_rename]
      exact CheckFollows.fieldTarget
  | bounded parameter bound arguments =>
    have method : other.program.bounds.method? ⟨bound, arguments.map (Ty.rename ρ)⟩ name =
        (body.program.bounds.method? ⟨bound, arguments⟩ name).map (Ty.rename ρ) := by
      rw [h.program.bounds]
      exact BoundTable.method?_rename _ ⟨bound, arguments⟩ name
    have follows : CheckFollows ρ (CallTarget.rename ρ)
        (body.memberTarget (.boundMethod receiver name) (.bounded parameter bound arguments) name
          (body.program.bounds.method? ⟨bound, arguments⟩ name) span)
        (other.memberTarget (.boundMethod (receiver.rename ρ) name) ((Ty.bounded parameter bound arguments).rename ρ)
          name ((body.program.bounds.method? ⟨bound, arguments⟩ name).map (Ty.rename ρ)) span) :=
      CheckFollows.memberTarget
    rw [← method] at follows
    simp only [Ty.rename, Ty.renameAll_eq_map] at follows ⊢
    exact follows
  | error => exact .pure rfl
  | _ => exact builtin _

theorem bindTypeArguments_follows (pairs : List (Ty × TypeExpr)) :
    CheckFollows ρ (OpenCall.rename ρ) (body.bindTypeArguments call pairs)
      (other.bindTypeArguments (call.rename ρ) (pairs.map fun pair => (pair.1.rename ρ, pair.2))) := by
  induction pairs generalizing call with
  | nil => exact .pure rfl
  | cons pair rest ih =>
    obtain ⟨parameter, argument⟩ := pair
    have slot : (parameter.parameterName? >>= (call.rename ρ).slots.get?) =
        (parameter.parameterName? >>= call.slots.get?).map (Ty.rename ρ) := by
      cases parameter.parameterName? with
      | none => rfl
      | some name => exact call.slots.get?_rename ρ name
    rw [map_cons, bindTypeArguments, bindTypeArguments, Ty.parameterName?_rename, slot]
    refine .bind (h.lowerType_follows argument) fun found => ?_
    cases parameter.parameterName? >>= call.slots.get? with
    | none => exact ih
    | some slot =>
      cases found with
      | none => exact ih
      | some t => exact .bind CheckFollows.unify fun _ => ih

theorem openCall_follows {shape : CallShape} :
    CheckFollows ρ (OpenCall.rename ρ) (body.openCall shape typeArguments argumentCount span)
      (other.openCall (shape.rename ρ) typeArguments argumentCount span) := by
  have params : (shape.rename ρ).params.length = shape.params.length := length_map _
  have typeParameters : (shape.rename ρ).typeParameters.length = shape.typeParameters.length := length_map _
  have started : ∀ slots : List (String × Ty),
      OpenCall.mk (shape.rename ρ) (.ofPairs (Instantiation.rename ρ slots)) {} =
        OpenCall.rename ρ ⟨shape, .ofPairs slots, {}⟩ := by
    intro slots
    rw [OpenCall.rename, Instantiation.rename_ofPairs]
    rfl
  have written : ∀ slots : List (String × Ty), CheckFollows ρ (OpenCall.rename ρ)
      (body.bindTypeArguments ⟨shape, .ofPairs slots, {}⟩ (shape.typeParameters.zip typeArguments))
      (other.bindTypeArguments ⟨shape.rename ρ, .ofPairs (Instantiation.rename ρ slots), {}⟩
        ((shape.rename ρ).typeParameters.zip typeArguments)) := by
    intro slots
    rw [started, CallShape.rename, zip_map_left]
    exact h.bindTypeArguments_follows _
  simp only [openCall, params, typeParameters]
  refine .ite (.bind CheckFollows.report fun _ => ?_) ?_
  all_goals
    exact .bind (CheckFollows.freshSlots _) fun slots => .ite (.pure (started slots))
      (.ite (written slots) (.refused (started slots)))

theorem acceptArgument_follows {position : Nat} {parameter : Ty} {value : TypedExpr} :
    CheckFollows ρ (OpenCall.rename ρ) (body.acceptArgument call position parameter value span)
      (other.acceptArgument (call.rename ρ) position (parameter.rename ρ) (value.rename ρ) span) := by
  obtain ⟨same, clash⟩ := call.unifier.unify_rename ρ parameter value.type
  rw [acceptArgument, acceptArgument, TypedExpr.type_rename]
  simp only [show (call.rename ρ).unifier = call.unifier.rename ρ from rfl, same, clash]
  generalize call.unifier.unify parameter value.type = outcome
  have kept : CheckFollows ρ (OpenCall.rename ρ) (return { call with unifier := outcome.unifier })
      (return { call.rename ρ with unifier := outcome.unifier.rename ρ }) := .pure rfl
  have closed : OpenCall.closed? { call.rename ρ with unifier := outcome.unifier.rename ρ } (parameter.rename ρ) =
      (OpenCall.closed? { call with unifier := outcome.unifier } parameter).map (Ty.rename ρ) :=
    OpenCall.closed?_rename ρ { call with unifier := outcome.unifier } parameter
  cases outcome.clash with
  | none => exact kept
  | some error =>
    simp only [Option.map_some, closed]
    cases OpenCall.closed? { call with unifier := outcome.unifier } parameter with
    | none => exact .bind CheckFollows.report fun _ => kept
    | some t =>
      simp only [Option.map_some, h.program.isAssignable_rename]
      exact .ite kept (.bind CheckFollows.report fun _ => kept)

theorem meetGoal_follows {goal : BoundGoal} {candidate : Ty} :
    CheckFollows ρ (OpenCall.rename ρ) (body.meetGoal call goal candidate span)
      (other.meetGoal (call.rename ρ) (goal.rename ρ) (candidate.rename ρ) span) := by
  have arguments : (goal.rename ρ).bound.arguments.map
      (fun t => (call.rename ρ).unifier.resolve (t.instantiate (call.rename ρ).slots)) =
        (goal.bound.arguments.map fun t => call.unifier.resolve (t.instantiate call.slots)).map (Ty.rename ρ) := by
    simp [BoundGoal.rename, BoundRef.rename, OpenCall.rename, ← Unifier.resolve_rename]
  have checked := h.program.checkBound_rename candidate
    ⟨goal.bound.name, goal.bound.arguments.map fun t => call.unifier.resolve (t.instantiate call.slots)⟩
  rw [BoundRef.rename] at checked
  rw [meetGoal, meetGoal]
  simp only [arguments, show (goal.rename ρ).bound.name = goal.bound.name from rfl, checked]
  cases body.program.checkBound candidate
    ⟨goal.bound.name, goal.bound.arguments.map fun t => call.unifier.resolve (t.instantiate call.slots)⟩ with
  | error cause => exact .refused rfl
  | ok bindings =>
    simp only [Except.map, zip_map_rename]
    exact .bind (CheckFollows.unifyBound _) fun _ => .pure rfl

theorem boundPass_follows (goals : List BoundGoal) :
    CheckFollows ρ (fun found => (found.1.rename ρ, found.2.map (BoundGoal.rename ρ)))
      (body.boundPass span call goals)
      (other.boundPass span (call.rename ρ) (goals.map (BoundGoal.rename ρ))) := by
  induction goals generalizing call with
  | nil => exact .pure rfl
  | cons goal rest ih =>
    have closed : (call.rename ρ).closed? (goal.rename ρ).slot = (call.closed? goal.slot).map (Ty.rename ρ) :=
      call.closed?_rename ρ goal.slot
    rw [map_cons, boundPass, boundPass, closed]
    cases call.closed? goal.slot with
    | none => exact .bind ih fun _ => .pure rfl
    | some candidate => exact .bind h.meetGoal_follows fun _ => ih

theorem boundPasses_follows (passes : Nat) (goals : List BoundGoal) :
    CheckFollows ρ (OpenCall.rename ρ) (body.boundPasses span passes call goals)
      (other.boundPasses span passes (call.rename ρ) (goals.map (BoundGoal.rename ρ))) := by
  induction passes generalizing call goals with
  | zero => exact .pure rfl
  | succ passes ih =>
    refine .bind (h.boundPass_follows goals) fun found => ?_
    simp only [length_map]
    exact .ite (.pure rfl) (ih found.2)

theorem closeCall_follows :
    CheckFollows ρ (fun found => (found.1.map (Ty.rename ρ), found.2.rename ρ)) (body.closeCall call span)
      (other.closeCall (call.rename ρ) span) := by
  rw [closeCall, closeCall, boundGoals_rename, length_map]
  refine .bind (h.boundPasses_follows _ _) fun call => .bind (CheckFollows.foundTypeArguments _) fun _ => .pure ?_
  have returns : Ty.ofReturns ((call.rename ρ).shape.returns.map (Ty.instantiate (call.rename ρ).slots)) =
      (Ty.ofReturns (call.shape.returns.map (Ty.instantiate call.slots))).rename ρ := by
    simp [OpenCall.rename, CallShape.rename, Ty.rename_ofReturns, Function.comp_def]
  rw [returns, call.closed?_rename]
  cases call.closed? (Ty.ofReturns (call.shape.returns.map (Ty.instantiate call.slots))) <;> rfl

theorem openTarget_follows {target : CallTarget} :
    CheckFollows ρ (Option.map (OpenCall.rename ρ)) (body.openTarget target typeArguments argumentCount span)
      (other.openTarget (target.rename ρ) typeArguments argumentCount span) := by
  obtain ⟨callee, shape⟩ := target
  cases shape with
  | none => exact .pure rfl
  | some shape => exact .bind h.openCall_follows fun _ => .pure rfl

theorem closeTarget_follows {callee : Callee} {call : Option OpenCall} {arguments : List TypedExpr} :
    CheckFollows ρ (TypedExpr.rename ρ) (body.closeTarget callee call arguments span)
      (other.closeTarget (callee.rename ρ) (call.map (OpenCall.rename ρ)) (arguments.map (TypedExpr.rename ρ)) span) := by
  cases call with
  | none =>
    refine .pure ?_
    simp [TypedExpr.rename, TypedExprKind.rename, Ty.rename]
  | some call =>
    refine .bind h.closeCall_follows fun found => .pure ?_
    simp [TypedExpr.rename, TypedExprKind.rename]

end Renames

end BodyContext

end SemanticChecker
