import SemanticChecker.Check.Declaration
import SemanticChecker.Proofs.Order.Bodies

/-! The bodies of a program under other numbers and in another order. Each of them is checked to the same, whatever the
number of the first slot, so that the order of bodies decides nothing but the order of what is reported. -/
namespace SemanticChecker

open List

namespace CheckFollows

variable {ρ : Renaming} {α β : Type} {f : α → β}

theorem inSource {work : CheckM α} {other : CheckM β} (unit : UnitId) (follows : CheckFollows ρ f work other) :
    CheckFollows ρ f (CheckM.inSource unit work) (CheckM.inSource unit other) := by
  intro s s' alike
  obtain ⟨same, later⟩ := follows { s with diagnostics := [] } { s' with diagnostics := [] } ⟨alike.nextSlot, .nil⟩
  exact ⟨same, later.nextSlot, alike.diagnostics.append (later.diagnostics.inSource unit)⟩

end CheckFollows

def renameDefaults (ρ : Renaming) (defaults : List (String × TypedExpr)) : List (String × TypedExpr) :=
  defaults.map fun entry => (entry.1, entry.2.rename ρ)

theorem lookup_renameDefaults (ρ : Renaming) (defaults : List (String × TypedExpr)) (name : String) :
    (renameDefaults ρ defaults).reverse.lookup name = TypedExpr.renameOption ρ (defaults.reverse.lookup name) := by
  rw [renameDefaults, ← map_reverse]
  induction defaults.reverse with
  | nil => rfl
  | cons entry rest ih =>
    rw [map_cons, lookup_cons, lookup_cons]
    cases name == entry.1 with
    | true => rfl
    | false => exact ih

theorem filter_renameDefaults (ρ : Renaming) (defaults : List (String × TypedExpr)) (name : String) :
    (renameDefaults ρ defaults).filter (fun entry => entry.1 != name) =
      renameDefaults ρ (defaults.filter fun entry => entry.1 != name) :=
  filter_map

theorem placeDefaults_rename (ρ : Renaming) (own : StructId) (fields : List ResolvedField)
    (defaults : List (String × TypedExpr)) :
    placeDefaults (ρ.struct own) (fields.map (ResolvedField.rename ρ)) (renameDefaults ρ defaults) =
      (placeDefaults own fields defaults).map (TypedField.rename ρ) := by
  induction fields generalizing defaults with
  | nil => rfl
  | cons field rest ih =>
    have origin : (field.rename ρ).origin = ρ.struct own ↔ field.origin = own := ρ.struct_injective.eq_iff
    rw [map_cons, placeDefaults, placeDefaults]
    simp only [origin]
    split
    · refine congrArg₂ List.cons ?_ ?_
      · exact congrArg (TypedField.mk _ _ _) (lookup_renameDefaults ρ defaults field.name)
      · exact (congrArg _ (filter_renameDefaults ρ defaults field.name)).trans (ih _)
    · exact congrArg (List.cons _) (ih _)

namespace BodyContext

theorem startEnv_rename (ρ : Renaming) (receiver : Option Ty) (signature : Signature) :
    startEnv (receiver.map (Ty.rename ρ)) (signature.rename ρ) = (startEnv receiver signature).rename ρ := by
  cases receiver <;> simp [startEnv, Env.rename]

namespace Renames

variable {ρ : Renaming} {body other : BodyContext} (h : body.Renames ρ other)

include h

theorem checkFunction_follows {decl : FunctionDecl} {signature : Signature} (receiver : Option Ty) :
    CheckFollows ρ (TypedBlock.renameOption ρ) (body.checkFunction decl signature receiver)
      (other.checkFunction decl (signature.rename ρ) (receiver.map (Ty.rename ρ))) := by
  have inner : { body with result := signature.result }.Renames ρ { other with result := (signature.rename ρ).result } :=
    ⟨h.program, h.module, h.typeParameters, signature.result_rename ρ⟩
  have parameters : startParameters (receiver.map (Ty.rename ρ)) decl = startParameters receiver decl := by
    cases receiver <;> rfl
  cases isBody : decl.body with
  | none =>
    simp only [checkFunction, isBody]
    exact .pure rfl
  | some block =>
    simp only [checkFunction, isBody, startEnv_rename, parameters]
    exact .bind inner.checkFunctionBody_follows fun _ => .pure rfl

theorem checkDefaults_follows (fields : List (FieldDecl × FieldDef)) :
    CheckFollows ρ (renameDefaults ρ) (body.checkDefaults fields)
      (other.checkDefaults (fields.map fun field => (field.1, field.2.rename ρ))) := by
  induction fields with
  | nil => exact .pure rfl
  | cons field rest ih =>
    obtain ⟨decl, field⟩ := field
    rw [map_cons, checkDefaults, checkDefaults]
    cases decl.default with
    | none => exact ih
    | some value =>
      have checked : CheckFollows ρ (TypedExpr.rename ρ) (body.checkDefault field value)
          (other.checkDefault (field.rename ρ) value) := by
        refine .bind (h.checkExpr_follows value [] (.value (some field.type))) fun typed => ?_
        rw [TypedExpr.type_rename]
        exact .bind h.expectAssignable_follows fun _ => .pure rfl
      exact .bind checked fun _ => .bind ih fun _ => .pure rfl

theorem checkMethods_follows (own : StructDef) (methods : List (FunctionDecl × MethodDef)) :
    CheckFollows ρ (List.map (TypedFunction.rename ρ)) (body.checkMethods own methods)
      (other.checkMethods (own.rename ρ) (methods.map fun method => (method.1, method.2.rename ρ))) := by
  induction methods with
  | nil => exact .pure rfl
  | cons method rest ih =>
    obtain ⟨decl, method⟩ := method
    have inner : { body with typeParameters := own.typeParameters ++ method.signature.typeParameters }.Renames ρ
        { other with
          typeParameters := (own.rename ρ).typeParameters ++ (method.signature.rename ρ).typeParameters } :=
      ⟨h.program, h.module, map_append.symm, h.result⟩
    rw [map_cons, checkMethods, checkMethods, StructDef.selfType_rename]
    refine .bind (inner.checkFunction_follows (some own.selfType)) fun block => .bind ih fun more => .pure ?_
    have owner : other.program.structRef (own.rename ρ).id = (body.program.structRef own.id).rename ρ :=
      h.program.structRef_rename own.id
    have generic : (!(own.rename ρ).typeParameters.isEmpty || (method.rename ρ).signature.isGeneric) =
        (!own.typeParameters.isEmpty || method.signature.isGeneric) := by
      rw [MethodDef.rename, Signature.isGeneric_rename, StructDef.typeParameters_rename, isEmpty_map]
    rw [owner, generic]
    rfl

end Renames

end BodyContext

namespace CheckContext.Renames

variable {ρ : Renaming} {ctx other : CheckContext} (h : ctx.Renames ρ other)

include h

theorem checkFunction_follows (own : FunctionDef) :
    CheckFollows ρ (TypedFunction.rename ρ) (ctx.checkFunction own) (other.checkFunction (own.rename ρ)) := by
  have body : BodyContext.Renames ρ ⟨ctx, own.module, own.signature.typeParameters, .unit⟩
      ⟨other, own.module, (own.signature.rename ρ).typeParameters, .unit⟩ :=
    ⟨h, rfl, rfl, rfl⟩
  refine CheckFollows.inSource own.unit (.bind (body.checkFunction_follows none) fun block => .pure ?_)
  rw [FunctionDef.rename, Signature.isGeneric_rename]
  rfl

theorem checkStruct_follows (own : StructDef) :
    CheckFollows ρ (TypedStruct.rename ρ) (ctx.checkStruct own) (other.checkStruct (own.rename ρ)) := by
  have body : BodyContext.Renames ρ ⟨ctx, own.module, own.typeParameters, .unit⟩
      ⟨other, own.module, (own.rename ρ).typeParameters, .unit⟩ :=
    ⟨h, rfl, rfl, rfl⟩
  have fields : own.decl.fields.zip (own.rename ρ).shape.fields =
      (own.decl.fields.zip own.shape.fields).map fun field => (field.1, field.2.rename ρ) := zip_map_right ..
  have methods : own.decl.methods.zip (own.rename ρ).shape.methods =
      (own.decl.methods.zip own.shape.methods).map fun method => (method.1, method.2.rename ρ) := zip_map_right ..
  refine CheckFollows.inSource own.unit (.bind (fields ▸ body.checkDefaults_follows _) fun defaults =>
    .bind (methods ▸ body.checkMethods_follows own _) fun methods => .pure ?_)
  have layout : other.layout? (own.rename ρ).id = (ctx.layout? own.id).map (Layout.rename ρ) := h.layout?_rename own.id
  have reference : other.structRef (own.rename ρ).id = (ctx.structRef own.id).rename ρ := h.structRef_rename own.id
  rw [layout, reference, StructDef.selfType_rename]
  cases ctx.layout? own.id with
  | none => rfl
  | some layout =>
    exact congrArg (TypedStruct.mk _ _ _ _ · _) (placeDefaults_rename ρ own.id layout.fields defaults)

end CheckContext.Renames

/-! Work after work: what each answers and reports by itself. -/
namespace CheckM

variable {ι α : Type}

/-- What work answers and reports, where slots have the given number and later ones. -/
def outcome (work : CheckM α) (nextSlot : Nat) : α × List Diagnostic :=
  ((work.run { nextSlot }).1, (work.run { nextSlot }).2.diagnostics)

/-- Whether work reads nothing of what was reported before it, and adds to that. -/
def Adds (work : CheckM α) : Prop :=
  ∀ s, (work.run s).1 = (work.outcome s.nextSlot).1 ∧
    (work.run s).2.diagnostics = s.diagnostics ++ (work.outcome s.nextSlot).2

theorem inSource_adds (unit : UnitId) (work : CheckM α) : Adds (inSource unit work) :=
  fun _ => ⟨rfl, rfl⟩

theorem mapM_outcomes {work : ι → CheckM α} (adds : ∀ i, Adds (work i)) (items : List ι) (s : CheckState) :
    ∃ outcomes : List (α × List Diagnostic),
      List.Forall₂ (fun i out => ∃ nextSlot, out = (work i).outcome nextSlot) items outcomes ∧
      ((items.mapM work).run s).1 = outcomes.map Prod.fst ∧
      ((items.mapM work).run s).2.diagnostics = s.diagnostics ++ outcomes.flatMap Prod.snd := by
  induction items generalizing s with
  | nil => exact ⟨[], .nil, rfl, (append_nil _).symm⟩
  | cons i rest ih =>
    obtain ⟨outcomes, each, answers, reports⟩ := ih ((work i).run s).2
    obtain ⟨answer, added⟩ := adds i s
    refine ⟨(work i).outcome s.nextSlot :: outcomes, .cons ⟨_, rfl⟩ each, ?_, ?_⟩
    · rw [mapM_cons, map_cons, ← answers, ← answer]
      rfl
    · rw [added, List.append_assoc] at reports
      rw [mapM_cons, flatMap_cons]
      exact reports

/-- Whether the same is answered under other numbers, wherever slots start, and reports are alike. -/
def Repeats (rename : Renaming → α → α) (ρ : Renaming) (first second : α × List Diagnostic) : Prop :=
  (∃ shift, second.1 = rename (ρ.shiftedBy shift) first.1) ∧ ReportsAlike first.2 second.2

variable {ρ : Renaming} {rename : Renaming → α → α}

theorem outcome_repeats {work other : CheckM α} {shift : Nat}
    (follows : CheckFollows (ρ.shiftedBy shift) (rename (ρ.shiftedBy shift)) work other) :
    Repeats rename ρ (work.outcome 0) (other.outcome shift) := by
  obtain ⟨answer, later⟩ := follows {} { nextSlot := shift } ⟨(Nat.zero_add shift).symm, .nil⟩
  exact ⟨⟨shift, answer⟩, later.diagnostics⟩

theorem mapM_repeats {work other : ι → CheckM α} {put : ι → ι} {items others : List ι}
    (follows : ∀ shift, ∀ i ∈ items,
      CheckFollows (ρ.shiftedBy shift) (rename (ρ.shiftedBy shift)) (work i) (other (put i)))
    (perm : others.Perm (items.map put)) (adds : ∀ i, Adds (other i)) (s : CheckState) :
    ∃ outcomes new, List.Forall₂ (Repeats rename ρ) (items.map fun i => (work i).outcome 0) outcomes ∧
      ((others.mapM other).run s).1.Perm (outcomes.map Prod.fst) ∧
      ((others.mapM other).run s).2.diagnostics = s.diagnostics ++ new ∧ new.Perm (outcomes.flatMap Prod.snd) := by
  obtain ⟨found, each, answers, reports⟩ := mapM_outcomes adds others s
  obtain ⟨outcomes, moved, back⟩ := List.perm_comp_forall₂ perm.symm each
  refine ⟨outcomes, found.flatMap Prod.snd, ?_, ?_, reports, back.symm.flatMap_right _⟩
  · rw [List.forall₂_map_left_iff] at moved ⊢
    refine ((List.forall₂_and_left items outcomes).2 ⟨fun _ mem => mem, moved⟩).imp fun i out here => ?_
    obtain ⟨mem, shift, rfl⟩ := here
    exact outcome_repeats (follows shift i mem)
  · rw [answers]
    exact back.symm.map _

end CheckM

namespace CheckContext

variable (ctx : CheckContext)

theorem names_checkStructs (owns : List StructDef) (s : CheckState) :
    ((ctx.checkStructs owns).run s).1.map TypedStruct.name = owns.map StructDef.name := by
  induction owns generalizing s with
  | nil => rfl
  | cons own rest ih => exact congrArg (own.name :: ·) (ih _)

theorem names_checkFunctions (owns : List FunctionDef) (s : CheckState) :
    ((ctx.checkFunctions owns).run s).1.map TypedFunction.name = owns.map FunctionDef.name := by
  induction owns generalizing s with
  | nil => rfl
  | cons own rest ih => exact congrArg (own.name :: ·) (ih _)

def structOutcomes : List (TypedStruct × List Diagnostic) :=
  ctx.table.structs.map fun own => (ctx.checkStruct own).outcome 0

def functionOutcomes : List (TypedFunction × List Diagnostic) :=
  ctx.table.functions.map fun own => (ctx.checkFunction own).outcome 0

end CheckContext

section Repeated

variable {ρ : Renaming}

/-- What comes to the same place whatever the shift, comes to the same there. -/
theorem rename_eq_of_placed {α : Type} (rename : Nat → α → α) {items : List α} (place : Nat → Option α)
    (placed : ∀ shift position, place position = items[position]?.map (rename shift)) {a : α} (mem : a ∈ items)
    (shift : Nat) : rename shift a = rename 0 a := by
  obtain ⟨position, here⟩ := getElem?_of_mem mem
  have moved := placed shift position
  rw [placed 0 position, here] at moved
  exact (Option.some.inj moved).symm

/-- Declarations have no slots, so that it does not matter by how much slots are moved. -/
theorem DeclTable.Renames.struct_shiftedBy {table others : DeclTable}
    (h : ∀ shift, table.Renames (ρ.shiftedBy shift) others) {own : StructDef} (mem : own ∈ table.structs) (shift : Nat) :
    own.rename (ρ.shiftedBy shift) = own.rename (ρ.shiftedBy 0) :=
  rename_eq_of_placed (fun shift => StructDef.rename (ρ.shiftedBy shift))
    (fun position => others.struct? (ρ.struct ⟨position⟩)) (fun shift position => (h shift).struct? ⟨position⟩) mem shift

theorem DeclTable.Renames.function_shiftedBy {table others : DeclTable}
    (h : ∀ shift, table.Renames (ρ.shiftedBy shift) others) {own : FunctionDef} (mem : own ∈ table.functions)
    (shift : Nat) : own.rename (ρ.shiftedBy shift) = own.rename (ρ.shiftedBy 0) :=
  rename_eq_of_placed (fun shift => FunctionDef.rename (ρ.shiftedBy shift))
    (fun position => others.function? (ρ.function ⟨position⟩)) (fun shift position => (h shift).function? ⟨position⟩) mem
    shift

theorem CheckContext.Renames.typedEnums {ctx other : CheckContext} (h : ctx.Renames ρ other) :
    other.typedEnums.Perm (ctx.typedEnums.map (TypedEnum.rename ρ)) := by
  refine (h.table.enums.filterMap _).trans (.of_eq ?_)
  rw [CheckContext.typedEnums, filterMap_map, map_filterMap]
  refine congrArg (List.filterMap · ctx.table.enums) (funext fun source => ?_)
  rw [Function.comp_apply, EnumSource.rename, h.enums]
  cases ctx.declared.enums.get? source.id <;> rfl

/-- All bodies under other numbers and in another order: each comes to what it comes to by itself. -/
theorem CheckContext.Renames.checkBodies {ctx other : CheckContext}
    (h : ∀ shift, ctx.Renames (ρ.shiftedBy shift) other) :
    ∃ structs functions, List.Forall₂ (CheckM.Repeats TypedStruct.rename ρ) ctx.structOutcomes structs ∧
      List.Forall₂ (CheckM.Repeats TypedFunction.rename ρ) ctx.functionOutcomes functions ∧
      (other.checkBodies.run {}).1.structs.Perm (structs.map Prod.fst) ∧
      (other.checkBodies.run {}).1.functions.Perm (functions.map Prod.fst) ∧
      (other.checkBodies.run {}).2.diagnostics.Perm (structs.flatMap Prod.snd ++ functions.flatMap Prod.snd) := by
  have table : ∀ shift, ctx.table.Renames (ρ.shiftedBy shift) other.table := fun shift => (h shift).table
  have struct : ∀ shift, ∀ own ∈ ctx.table.structs, CheckFollows (ρ.shiftedBy shift)
      (TypedStruct.rename (ρ.shiftedBy shift)) (ctx.checkStruct own)
      (other.checkStruct (own.rename (ρ.shiftedBy 0))) := by
    intro shift own mem
    rw [← DeclTable.Renames.struct_shiftedBy table mem shift]
    exact (h shift).checkStruct_follows own
  have function : ∀ shift, ∀ own ∈ ctx.table.functions, CheckFollows (ρ.shiftedBy shift)
      (TypedFunction.rename (ρ.shiftedBy shift)) (ctx.checkFunction own)
      (other.checkFunction (own.rename (ρ.shiftedBy 0))) := by
    intro shift own mem
    rw [← DeclTable.Renames.function_shiftedBy table mem shift]
    exact (h shift).checkFunction_follows own
  obtain ⟨structs, first, eachStruct, structsPerm, reported, firstPerm⟩ :=
    CheckM.mapM_repeats struct (table 0).structs (fun _ => CheckM.inSource_adds _ _) {}
  rw [← checkStructs_eq_mapM] at structsPerm reported
  obtain ⟨functions, second, eachFunction, functionsPerm, reported', secondPerm⟩ :=
    CheckM.mapM_repeats function (table 0).functions (fun _ => CheckM.inSource_adds _ _)
      ((other.checkStructs other.table.structs).run {}).2
  rw [← checkFunctions_eq_mapM] at functionsPerm reported'
  refine ⟨structs, functions, eachStruct, eachFunction, structsPerm, functionsPerm, ?_⟩
  rw [reported] at reported'
  exact (List.Perm.of_eq reported').trans (firstPerm.append secondPerm)

end Repeated

end SemanticChecker
