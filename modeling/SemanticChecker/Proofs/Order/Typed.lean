import SemanticChecker.Proofs.Order.Renaming
import SemanticChecker.Typed.Unresolved

/-! Typed programs under other numbers. Their types are the same under these numbers, at the same places. -/
namespace SemanticChecker

open List

def StructRef.rename (ρ : Renaming) (reference : StructRef) : StructRef :=
  { reference with id := ρ.struct reference.id }

mutual

def TypedExpr.rename (ρ : Renaming) : TypedExpr → TypedExpr
  | ⟨kind, t, span⟩ => ⟨kind.rename ρ, t.rename ρ, span⟩

def TypedExprKind.rename (ρ : Renaming) : TypedExprKind → TypedExprKind
  | .literal value => .literal value
  | .enumVariant id variant index => .enumVariant (ρ.enum id) variant index
  | .tuple items => .tuple (TypedExpr.renameEach ρ items)
  | .list items => .list (TypedExpr.renameEach ρ items)
  | .dict entries => .dict (TypedExpr.renameEntries ρ entries)
  | .ident name => .ident name
  | .functionRef id => .functionRef (ρ.function id)
  | .assign target value => .assign (target.rename ρ) (value.rename ρ)
  | .call callee typeArguments arguments =>
    .call (callee.rename ρ) (typeArguments.map (Ty.rename ρ)) (TypedExpr.renameEach ρ arguments)
  | .field object name => .field (object.rename ρ) name
  | .tupleSlot tuple index => .tupleSlot (tuple.rename ρ) index
  | .binary operator left right => .binary operator (left.rename ρ) (right.rename ρ)
  | .cond condition thenBranch elseBranch =>
    .cond (condition.rename ρ) (thenBranch.rename ρ) (TypedBlock.renameOption ρ elseBranch)

def Callee.rename (ρ : Renaming) : Callee → Callee
  | .function id => .function (ρ.function id)
  | .method receiver origin name => .method (receiver.rename ρ) (ρ.struct origin) name
  | .builtin receiver name => .builtin (receiver.rename ρ) name
  | .boundMethod receiver name => .boundMethod (receiver.rename ρ) name
  | .construct reference => .construct (reference.rename ρ)
  | .value value => .value (value.rename ρ)

def TypedExpr.renameEach (ρ : Renaming) : List TypedExpr → List TypedExpr
  | [] => []
  | item :: rest => item.rename ρ :: TypedExpr.renameEach ρ rest

def TypedExpr.renameEntries (ρ : Renaming) : List (TypedExpr × TypedExpr) → List (TypedExpr × TypedExpr)
  | [] => []
  | (key, value) :: rest => (key.rename ρ, value.rename ρ) :: TypedExpr.renameEntries ρ rest

def TypedExpr.renameOption (ρ : Renaming) : Option TypedExpr → Option TypedExpr
  | none => none
  | some value => some (value.rename ρ)

def TypedStatement.rename (ρ : Renaming) : TypedStatement → TypedStatement
  | .bind name t initializer span => .bind name (t.rename ρ) (TypedExpr.renameOption ρ initializer) span
  | .expression value => .expression (value.rename ρ)
  | .ret value span => .ret (TypedExpr.renameOption ρ value) span

def TypedStatement.renameEach (ρ : Renaming) : List TypedStatement → List TypedStatement
  | [] => []
  | statement :: rest => statement.rename ρ :: TypedStatement.renameEach ρ rest

def TypedBlock.rename (ρ : Renaming) : TypedBlock → TypedBlock
  | ⟨statements, t, diverges⟩ => ⟨TypedStatement.renameEach ρ statements, t.rename ρ, diverges⟩

def TypedBlock.renameOption (ρ : Renaming) : Option TypedBlock → Option TypedBlock
  | none => none
  | some block => some (block.rename ρ)

end

variable (ρ : Renaming)

@[simp] theorem TypedExpr.type_rename (e : TypedExpr) : (e.rename ρ).type = e.type.rename ρ := by
  cases e
  rfl

@[simp] theorem TypedExpr.span_rename (e : TypedExpr) : (e.rename ρ).span = e.span := by
  cases e
  rfl

@[simp] theorem TypedExpr.kind_rename (e : TypedExpr) : (e.rename ρ).kind = e.kind.rename ρ := by
  cases e
  rfl

@[simp] theorem TypedBlock.type_rename (block : TypedBlock) : (block.rename ρ).type = block.type.rename ρ := by
  cases block
  rfl

@[simp] theorem TypedBlock.diverges_rename (block : TypedBlock) : (block.rename ρ).diverges = block.diverges := by
  cases block
  rfl

@[simp] theorem TypedExpr.renameEach_eq_map (items : List TypedExpr) :
    TypedExpr.renameEach ρ items = items.map (TypedExpr.rename ρ) := by
  induction items with
  | nil => rfl
  | cons item rest ih => rw [TypedExpr.renameEach, ih, map_cons]

@[simp] theorem TypedExpr.renameEntries_eq_map (entries : List (TypedExpr × TypedExpr)) :
    TypedExpr.renameEntries ρ entries = entries.map fun entry => (entry.1.rename ρ, entry.2.rename ρ) := by
  induction entries with
  | nil => rfl
  | cons entry rest ih => rw [TypedExpr.renameEntries, ih, map_cons]

@[simp] theorem TypedStatement.renameEach_eq_map (statements : List TypedStatement) :
    TypedStatement.renameEach ρ statements = statements.map (TypedStatement.rename ρ) := by
  induction statements with
  | nil => rfl
  | cons statement rest ih => rw [TypedStatement.renameEach, ih, map_cons]

@[simp] theorem TypedStatement.diverges_rename (statement : TypedStatement) :
    (statement.rename ρ).diverges = statement.diverges := by
  cases statement with
  | bind name t initializer span => rfl
  | ret value span => rfl
  | expression value =>
    obtain ⟨kind, t, span⟩ := value
    cases kind with
    | cond condition thenBranch elseBranch =>
      cases elseBranch with
      | none => rfl
      | some elseBranch =>
        exact congrArg₂ and (thenBranch.diverges_rename ρ) (elseBranch.diverges_rename ρ)
    | _ => rfl

def renameSited (types : List (Ty × Span)) : List (Ty × Span) :=
  types.map fun sited => (sited.1.rename ρ, sited.2)

theorem renameSited_append (types more : List (Ty × Span)) :
    renameSited ρ (types ++ more) = renameSited ρ types ++ renameSited ρ more :=
  map_append

theorem renameSited_join {types more types' more' : List (Ty × Span)} (first : types' = renameSited ρ types)
    (second : more' = renameSited ρ more) : types' ++ more' = renameSited ρ (types ++ more) := by
  rw [first, second, renameSited_append]

theorem renameSited_at (types : List Ty) (span : Span) :
    renameSited ρ (types.map fun t => (t, span)) = (types.map (Ty.rename ρ)).map fun t => (t, span) := by
  simp [renameSited]

mutual

theorem TypedExpr.types_rename (e : TypedExpr) : (e.rename ρ).types = renameSited ρ e.types := by
  obtain ⟨kind, t, span⟩ := e
  exact congrArg ((t.rename ρ, span) :: ·) (kind.types_rename span)

theorem TypedExprKind.types_rename (kind : TypedExprKind) (span : Span) :
    (kind.rename ρ).types span = renameSited ρ (kind.types span) := by
  cases kind with
  | tuple items => exact TypedExpr.typesOfEach_rename items
  | list items => exact TypedExpr.typesOfEach_rename items
  | dict entries => exact TypedExpr.typesOfEntries_rename entries
  | assign target value => exact renameSited_join ρ target.types_rename value.types_rename
  | call callee typeArguments arguments =>
    exact renameSited_join ρ (renameSited_join ρ callee.types_rename (renameSited_at ρ typeArguments span).symm)
      (TypedExpr.typesOfEach_rename arguments)
  | field object name => exact object.types_rename
  | tupleSlot tuple index => exact tuple.types_rename
  | binary operator left right => exact renameSited_join ρ left.types_rename right.types_rename
  | cond condition thenBranch elseBranch =>
    exact renameSited_join ρ (renameSited_join ρ condition.types_rename thenBranch.types_rename)
      (TypedBlock.typesOfOption_rename elseBranch)
  | _ => rfl

theorem Callee.types_rename (callee : Callee) : (callee.rename ρ).types = renameSited ρ callee.types := by
  cases callee with
  | method receiver origin name => exact receiver.types_rename
  | builtin receiver name => exact receiver.types_rename
  | boundMethod receiver name => exact receiver.types_rename
  | value value => exact value.types_rename
  | _ => rfl

theorem TypedExpr.typesOfEach_rename (items : List TypedExpr) :
    TypedExpr.typesOfEach (TypedExpr.renameEach ρ items) = renameSited ρ (TypedExpr.typesOfEach items) := by
  cases items with
  | nil => rfl
  | cons item rest => exact renameSited_join ρ item.types_rename (TypedExpr.typesOfEach_rename rest)

theorem TypedExpr.typesOfEntries_rename (entries : List (TypedExpr × TypedExpr)) :
    TypedExpr.typesOfEntries (TypedExpr.renameEntries ρ entries) =
      renameSited ρ (TypedExpr.typesOfEntries entries) := by
  cases entries with
  | nil => rfl
  | cons entry rest =>
    obtain ⟨key, value⟩ := entry
    exact renameSited_join ρ (renameSited_join ρ key.types_rename value.types_rename)
      (TypedExpr.typesOfEntries_rename rest)

theorem TypedExpr.typesOfOption_rename (value : Option TypedExpr) :
    TypedExpr.typesOfOption (TypedExpr.renameOption ρ value) = renameSited ρ (TypedExpr.typesOfOption value) := by
  cases value with
  | none => rfl
  | some value => exact value.types_rename

theorem TypedStatement.types_rename (statement : TypedStatement) :
    (statement.rename ρ).types = renameSited ρ statement.types := by
  cases statement with
  | bind name t initializer span =>
    exact congrArg ((t.rename ρ, span) :: ·) (TypedExpr.typesOfOption_rename initializer)
  | expression value => exact value.types_rename
  | ret value span => exact TypedExpr.typesOfOption_rename value

theorem TypedStatement.typesOfEach_rename (statements : List TypedStatement) :
    TypedStatement.typesOfEach (TypedStatement.renameEach ρ statements) =
      renameSited ρ (TypedStatement.typesOfEach statements) := by
  cases statements with
  | nil => rfl
  | cons statement rest => exact renameSited_join ρ statement.types_rename (TypedStatement.typesOfEach_rename rest)

theorem TypedBlock.types_rename (block : TypedBlock) : (block.rename ρ).types = renameSited ρ block.types := by
  obtain ⟨statements, t, diverges⟩ := block
  exact TypedStatement.typesOfEach_rename statements

theorem TypedBlock.typesOfOption_rename (block : Option TypedBlock) :
    TypedBlock.typesOfOption (TypedBlock.renameOption ρ block) = renameSited ρ (TypedBlock.typesOfOption block) := by
  cases block with
  | none => rfl
  | some block => exact block.types_rename

end

/-! Typed declarations. -/

def TypedField.rename (field : TypedField) : TypedField :=
  ⟨field.name, field.type.rename ρ, ρ.struct field.origin, TypedExpr.renameOption ρ field.default⟩

def TypedFunction.rename (function : TypedFunction) : TypedFunction :=
  { function with
    owner := function.owner.map (StructRef.rename ρ)
    typeParameters := function.typeParameters.map (Ty.rename ρ)
    params := function.params.map fun entry => (entry.1, entry.2.rename ρ)
    returns := function.returns.map (Ty.rename ρ)
    body := TypedBlock.renameOption ρ function.body }

def TypedStruct.rename (struct : TypedStruct) : TypedStruct where
  name := struct.name
  reference := struct.reference.rename ρ
  type := struct.type.rename ρ
  typeParameters := struct.typeParameters.map (Ty.rename ρ)
  fields := struct.fields.map (TypedField.rename ρ)
  methods := struct.methods.map (TypedFunction.rename ρ)

def TypedEnum.rename (typed : TypedEnum) : TypedEnum :=
  { typed with id := ρ.enum typed.id }

def TypeSite.rename (site : TypeSite) : TypeSite :=
  { site with type := site.type.rename ρ }

namespace TypeSite

@[simp] theorem isUnresolved_rename (site : TypeSite) : (site.rename ρ).isUnresolved = site.isUnresolved :=
  site.type.isUnresolved_rename ρ site.generic

theorem ofTypes_rename (generic : Bool) (types : List (Ty × Span)) :
    ofTypes generic (renameSited ρ types) = (ofTypes generic types).map (rename ρ) := by
  simp [ofTypes, renameSited, rename]

theorem ofTypes_resolved {generic : Bool} {types : List (Ty × Span)} :
    (∀ site ∈ ofTypes generic types, site.isUnresolved = false) ↔
      ∀ sited ∈ types, sited.1.isUnresolved generic = false :=
  forall_mem_map

end TypeSite

theorem TypedFunction.sites_rename (function : TypedFunction) :
    (function.rename ρ).sites = function.sites.map (TypeSite.rename ρ) := by
  have signature : renameSited ρ ((function.params.map (·.2) ++ function.returns).map fun t => (t, function.span)) =
      ((function.rename ρ).params.map (·.2) ++ (function.rename ρ).returns).map fun t => (t, function.span) := by
    simp [renameSited, rename, Function.comp_def]
  rw [sites, sites, ← TypeSite.ofTypes_rename, renameSited_append, signature,
    ← TypedBlock.typesOfOption_rename ρ function.body]
  rfl

theorem TypedField.sites_rename (generic : Bool) (field : TypedField) :
    (field.rename ρ).sites generic = (field.sites generic).map (TypeSite.rename ρ) := by
  rw [sites, sites, ← TypeSite.ofTypes_rename, rename, TypedExpr.typesOfOption_rename ρ field.default]
  rfl

theorem TypedStruct.sites_rename (struct : TypedStruct) :
    (struct.rename ρ).sites = struct.sites.map (TypeSite.rename ρ) := by
  simp [sites, rename, flatMap_map, map_flatMap, TypedField.sites_rename, TypedFunction.sites_rename]

def TypedFunction.Resolved (function : TypedFunction) : Prop :=
  ∀ site ∈ function.sites, site.isUnresolved = false

def TypedStruct.Resolved (struct : TypedStruct) : Prop :=
  ∀ site ∈ struct.sites, site.isUnresolved = false

theorem TypedFunction.resolved_rename (function : TypedFunction) : (function.rename ρ).Resolved ↔ function.Resolved := by
  simp only [Resolved, sites_rename, forall_mem_map, TypeSite.isUnresolved_rename]

theorem TypedStruct.resolved_rename (struct : TypedStruct) : (struct.rename ρ).Resolved ↔ struct.Resolved := by
  simp only [Resolved, sites_rename, forall_mem_map, TypeSite.isUnresolved_rename]

theorem TypedProgram.findUnresolved?_eq_none {program : TypedProgram} : program.findUnresolved? = none ↔
    (∀ struct ∈ program.structs, struct.Resolved) ∧ ∀ function ∈ program.functions, function.Resolved := by
  simp only [findUnresolved?, find?_eq_none, sites, forall_mem_append, forall_mem_flatMap,
    Bool.not_eq_true, TypedStruct.Resolved, TypedFunction.Resolved]

/-! What a reader is shown of a typed program: names, and types as they are described. -/

def shownTypes (names : TypeNames) (types : List (Ty × Span)) : List (String × Span) :=
  types.map fun sited => (sited.1.describe names, sited.2)

/-- What is shown of a function: its parameters and results, and every type in its body. -/
structure ShownFunction where
  name : String
  params : List (String × String)
  returns : List String
  types : List (String × Span)

structure ShownField where
  name : String
  type : String
  types : List (String × Span)

structure ShownStruct where
  name : String
  fields : List ShownField
  methods : List ShownFunction

structure ShownEnum where
  name : String
  type : String
  backing : Primitive
  variants : List EnumVariant

def TypedFunction.shown (names : TypeNames) (function : TypedFunction) : ShownFunction where
  name := function.name
  params := function.params.map fun entry => (entry.1, entry.2.describe names)
  returns := function.returns.map (Ty.describe names)
  types := shownTypes names (TypedBlock.typesOfOption function.body)

def TypedField.shown (names : TypeNames) (field : TypedField) : ShownField where
  name := field.name
  type := field.type.describe names
  types := shownTypes names (TypedExpr.typesOfOption field.default)

def TypedStruct.shown (names : TypeNames) (struct : TypedStruct) : ShownStruct where
  name := struct.name
  fields := struct.fields.map (TypedField.shown names)
  methods := struct.methods.map (TypedFunction.shown names)

def TypedEnum.shown (names : TypeNames) (typed : TypedEnum) : ShownEnum where
  name := typed.name
  type := typed.type.describe names
  backing := typed.backing
  variants := typed.variants

section Shown

variable {ρ} {names others : TypeNames} (keeps : names.Keeps ρ others)

include keeps

theorem shownTypes_rename {generic : Bool} {types : List (Ty × Span)}
    (resolved : ∀ sited ∈ types, sited.1.isUnresolved generic = false) :
    shownTypes others (renameSited ρ types) = shownTypes names types := by
  rw [shownTypes, shownTypes, renameSited, map_map]
  exact map_congr_left fun sited mem => congrArg (·, sited.2) (Ty.describe_rename keeps (resolved sited mem))

theorem TypedFunction.shown_rename {function : TypedFunction} (resolved : function.Resolved) :
    (function.rename ρ).shown others = function.shown names := by
  obtain ⟨signature, body⟩ := forall_mem_append.1 (TypeSite.ofTypes_resolved.1 resolved)
  obtain ⟨params, returns⟩ := forall_mem_append.1 (forall_mem_map.1 signature)
  rw [shown, shown, ShownFunction.mk.injEq]
  refine ⟨rfl, ?_, ?_, ?_⟩
  · rw [rename, map_map]
    exact map_congr_left fun entry mem =>
      congrArg (entry.1, ·) (Ty.describe_rename keeps (forall_mem_map.1 params entry mem))
  · rw [rename, map_map]
    exact map_congr_left fun t mem => Ty.describe_rename keeps (returns t mem)
  · rw [rename, TypedBlock.typesOfOption_rename]
    exact shownTypes_rename keeps body

theorem TypedField.shown_rename {generic : Bool} {field : TypedField}
    (resolved : ∀ site ∈ field.sites generic, site.isUnresolved = false) :
    (field.rename ρ).shown others = field.shown names := by
  obtain ⟨type, default⟩ := forall_mem_cons.1 (TypeSite.ofTypes_resolved.1 resolved)
  rw [shown, shown, ShownField.mk.injEq]
  refine ⟨rfl, Ty.describe_rename keeps type, ?_⟩
  rw [rename, TypedExpr.typesOfOption_rename]
  exact shownTypes_rename keeps default

theorem TypedStruct.shown_rename {struct : TypedStruct} (resolved : struct.Resolved) :
    (struct.rename ρ).shown others = struct.shown names := by
  obtain ⟨fields, methods⟩ := forall_mem_append.1 resolved
  rw [shown, shown, ShownStruct.mk.injEq]
  refine ⟨rfl, ?_, ?_⟩
  · rw [rename, map_map]
    exact map_congr_left fun field mem =>
      TypedField.shown_rename keeps fun site isSite => fields site (mem_flatMap.2 ⟨field, mem, isSite⟩)
  · rw [rename, map_map]
    exact map_congr_left fun method mem =>
      TypedFunction.shown_rename keeps fun site isSite => methods site (mem_flatMap.2 ⟨method, mem, isSite⟩)

theorem TypedEnum.shown_rename (typed : TypedEnum) : (typed.rename ρ).shown others = typed.shown names := by
  rw [shown, shown, ShownEnum.mk.injEq]
  exact ⟨rfl, keeps.enum typed.id, rfl, rfl⟩

end Shown

end SemanticChecker
