import Mathlib
import SemanticChecker.Proofs.Declared.Listing
import SemanticChecker.Proofs.Mirror.Bodies
import SemanticChecker.Proofs.Soundness.Report

/-! The typed program beside the units it was checked from. In a program without errors every function and every
method that is declared has its typed counterpart, in order, and the typed body mirrors the body in the source. -/
namespace SemanticChecker

open List

theorem TypeScope.lowerParams_spelled (scope : TypeScope) (decls : List ParameterDecl) :
    Finds (scope.lowerParams decls) fun params => params.map (·.1) = decls.map (·.name) := by
  induction decls with
  | nil => exact .pure rfl
  | cons decl rest ih => exact .after fun _ => ih.bind fun _ more => .pure (congrArg (decl.name :: ·) more)

theorem TypeScope.lowerSignature_spelled (scope : TypeScope) (bounds : BoundTable) (decl : FunctionDecl) :
    Finds (scope.lowerSignature bounds decl) fun s => s.params.map (·.1) = decl.parameters.map (·.name) :=
  .after fun _ => (lowerParams_spelled _ decl.parameters).bind fun _ spelled => .after fun _ => .pure spelled

structure MethodDef.Spells (decl : FunctionDecl) (method : MethodDef) : Prop where
  name : method.name = decl.name
  span : method.span = decl.span
  params : method.signature.params.map (·.1) = decl.parameters.map (·.name)

theorem Declarations.lowerMethods_spelled (bounds : BoundTable) (scope : TypeScope) (decls : List FunctionDecl) :
    Finds (lowerMethods bounds scope decls) (List.Forall₂ MethodDef.Spells decls) := by
  induction decls with
  | nil => exact .pure .nil
  | cons decl rest ih =>
    refine (scope.lowerSignature_spelled bounds decl).bind fun _ spelled => ih.bind fun _ more => .pure ?_
    exact .cons ⟨rfl, rfl, spelled⟩ more

theorem Declarations.shapeOf_spelled (declared : Declarations) (bounds : BoundTable) (own : StructDef) :
    List.Forall₂ MethodDef.Spells own.decl.methods (declared.shapeOf bounds own).methods := by
  have spelled : Finds (declared.lowerStruct bounds own) fun shape =>
      List.Forall₂ MethodDef.Spells own.decl.methods shape.methods :=
    .after fun _ => .after fun _ => .after fun _ => (lowerMethods_spelled bounds _ _).bind fun _ each => .pure each
  exact spelled {}

def DeclTable.symbolIn (table : DeclTable) (module : ModulePath) (name : String) : Option Symbol :=
  (table.resolveName module name).map (·.2)

/-- Whether the body of a function mirrors a body in the source, or both are missing. -/
def BodyMirrors (table : DeclTable) (module : ModulePath) (locals : List String) : Option TypedBlock →
    Option Block → Prop :=
  Option.Rel fun block source => StatementsMirror (table.symbolIn module) locals block.statements source

/-- A typed function beside its declaration. In the body its parameters are local, a later one before an earlier
one, and so is the receiver of a method. -/
structure TypedFunction.Mirrors (table : DeclTable) (module : ModulePath) (receiver : List String)
    (decl : FunctionDecl) (function : TypedFunction) : Prop where
  params : function.params.map (·.1) = decl.parameters.map (·.name)
  span : function.span = decl.span
  body : BodyMirrors table module ((decl.parameters.map (·.name)).reverse ++ receiver) function.body decl.body

/-- A typed struct beside its declaration: one typed method for each that is declared. -/
structure TypedStruct.Mirrors (table : DeclTable) (source : Located StructDecl) (struct : TypedStruct) : Prop where
  name : struct.name = source.name
  methods : List.Forall₂ (fun decl (method : TypedFunction) =>
    method.name = decl.name ∧ method.Mirrors table source.module ["self"] decl) source.decl.methods struct.methods

namespace BodyContext

def RendersBlock (body : BodyContext) (env : Env) (source : Block) (block : TypedBlock) : Prop :=
  Stands block.types (StatementsMirror body.symbol? env.locals block.statements source) (block.names env)
    (Statement.readsOfEach env.locals source)

theorem checkBlock_renders (body : BodyContext) (env : Env) (mode : Mode) (block : Block) :
    Finds (body.checkBlock env mode block) (body.RendersBlock env block) :=
  (checkStatements_renders body block env mode).bind fun _ renders => .pure renders.stands

theorem checkResult_renders (body : BodyContext) (env : Env) (function : String) (span : Span) (block : Block) :
    Finds (body.checkResult env function span block) (body.RendersBlock env block) := by
  refine (body.checkBlock_renders env _ block).bind fun typed renders => ?_
  split
  · exact .pure renders
  · dsimp only
    split
    · exact .after fun _ => .pure renders
    · exact .after fun _ => .pure renders

theorem checkFunctionBody_renders (body : BodyContext) (env : Env) (parameters : List (String × Span))
    (function : String) (span : Span) (block : Block) :
    Finds (body.checkFunctionBody env parameters function span block) (body.RendersBlock env block) := by
  unfold checkFunctionBody
  dsimp only
  split
  · exact (body.checkBlock_renders env .statement block).bind fun _ renders => .after fun _ => .pure renders
  · exact (body.checkResult_renders env function span block).bind fun _ renders => .after fun _ => .pure renders

theorem checkFunction_mirrors (body : BodyContext) (decl : FunctionDecl) (signature : Signature)
    (receiver : Option Ty) : Finds (body.checkFunction decl signature receiver) fun block =>
      Known (TypedBlock.typesOfOption block) →
        BodyMirrors body.program.table body.module (startEnv receiver signature).locals block decl.body := by
  cases isBody : decl.body with
  | none =>
    rw [checkFunction, isBody]
    exact .pure fun _ => .none
  | some block =>
    rw [checkFunction, isBody]
    refine (checkFunctionBody_renders _ _ _ _ _ block).bind fun _ renders => .pure fun known => ?_
    exact .some (renders.mirrors known)

theorem locals_startEnv (receiver : Option Ty) {signature : Signature} {decl : FunctionDecl}
    (spelled : signature.params.map (·.1) = decl.parameters.map (·.name)) :
    (startEnv receiver signature).locals =
      (decl.parameters.map (·.name)).reverse ++ receiver.toList.map fun _ => "self" := by
  rw [Env.locals, startEnv, map_append, map_reverse, spelled, map_map]
  rfl

theorem checkMethods_mirrors (body : BodyContext) (own : StructDef) : ∀ {decls : List FunctionDecl}
    {methods : List MethodDef}, List.Forall₂ MethodDef.Spells decls methods →
      Finds (body.checkMethods own (decls.zip methods)) (List.Forall₂ (fun decl (method : TypedFunction) =>
        Known (TypedBlock.typesOfOption method.body) →
          method.name = decl.name ∧ method.Mirrors body.program.table body.module ["self"] decl) decls)
  | [], [], .nil => .pure .nil
  | decl :: decls, method :: methods, .cons spelled rest => by
    refine (checkFunction_mirrors _ decl method.signature (some own.selfType)).bind fun block mirrors => ?_
    refine (body.checkMethods_mirrors own rest).bind fun typed more => .pure (.cons (fun known => ?_) more)
    refine ⟨spelled.name, spelled.params, spelled.span, ?_⟩
    have same := mirrors known
    rw [locals_startEnv _ spelled.params] at same
    exact same

end BodyContext

theorem forall₂_of_known {α β : Type} {P : β → Prop} {R : α → β → Prop} {as : List α} {bs : List β}
    (each : List.Forall₂ (fun a b => P b → R a b) as bs) (known : ∀ b ∈ bs, P b) : List.Forall₂ R as bs := by
  induction each with
  | nil => exact .nil
  | cons first _ ih =>
    obtain ⟨here, there⟩ := forall_mem_cons.1 known
    exact .cons (first here) (ih there)

namespace CheckContext

theorem checkFunction_mirrors (ctx : CheckContext) (own : FunctionDef)
    (spelled : own.signature.params.map (·.1) = own.decl.parameters.map (·.name)) :
    Finds (ctx.checkFunction own) fun function => Known (TypedBlock.typesOfOption function.body) →
      function.name = own.name ∧ function.Mirrors ctx.table own.module [] own.decl := by
  refine CheckM.inSource_finds ?_ own.unit
  refine (BodyContext.checkFunction_mirrors _ own.decl own.signature none).bind fun block mirrors => .pure fun known => ?_
  refine ⟨rfl, spelled, rfl, ?_⟩
  have same := mirrors known
  rw [BodyContext.locals_startEnv _ spelled] at same
  exact same

theorem checkStruct_mirrors (ctx : CheckContext) (own : StructDef)
    (spelled : List.Forall₂ MethodDef.Spells own.decl.methods own.shape.methods) :
    Finds (ctx.checkStruct own) fun struct =>
      (∀ method ∈ struct.methods, Known (TypedBlock.typesOfOption method.body)) →
        struct.Mirrors ctx.table own.located := by
  refine CheckM.inSource_finds ?_ own.unit
  refine .after fun defaults => (BodyContext.checkMethods_mirrors _ own spelled).bind fun methods each => .pure ?_
  intro known
  refine ⟨rfl, ?_⟩
  exact forall₂_of_known each known

end CheckContext

theorem TypedFunction.known_body {function : TypedFunction} (known : ∀ site ∈ function.sites, site.type ≠ .error) :
    Known (TypedBlock.typesOfOption function.body) := by
  intro site mem
  exact known ⟨site.1, site.2, function.generic⟩ (mem_map_of_mem (mem_append_right _ mem))

namespace CheckReport

theorem functions_spelled (options : CheckOptions) (units : List SourceUnit) :
    ∀ own ∈ (unguarded options units).context.table.functions,
      own.signature.params.map (·.1) = own.decl.parameters.map (·.name) := by
  rw [show (unguarded options units).context.table.functions = _ from Collected.functions_ofUnits .standard units]
  intro own mem
  obtain ⟨before, _, rfl⟩ := mem_map.1 mem
  exact TypeScope.lowerSignature_spelled _ _ before.decl {}

theorem structs_spelled (options : CheckOptions) (units : List SourceUnit) :
    ∀ own ∈ (unguarded options units).context.table.structs,
      List.Forall₂ MethodDef.Spells own.decl.methods own.shape.methods := by
  rw [show (unguarded options units).context.table.structs = _ from Collected.structs_ofUnits .standard units]
  intro own mem
  obtain ⟨before, _, rfl⟩ := mem_map.1 mem
  exact Declarations.shapeOf_spelled _ _ before

theorem located_eq_declaredIn {options : CheckOptions} {units : List SourceUnit}
    (noErrors : (unguarded options units).log.hasErrors = false) :
    (unguarded options units).context.table.functions.map FunctionDef.located = declaredIn Declaration.function? units ∧
      (unguarded options units).context.table.structs.map StructDef.located = declaredIn Declaration.struct? units := by
  obtain ⟨collected, _⟩ := (unguarded_hasErrors_eq_false options units).1 noErrors
  have lists := Collected.named_lists (harmless_append.1 (harmless_append.1 collected).1).1
  rw [show (unguarded options units).context.table.functions = _ from Collected.functions_ofUnits .standard units,
    show (unguarded options units).context.table.structs = _ from Collected.structs_ofUnits .standard units,
    map_map, map_map]
  exact ⟨lists.functions, lists.structs⟩

/-- In a program that is checked without errors, every function and every method that the units declare has its
typed counterpart, in the order of the units, and the body of that mirrors the body in the source: node for node,
at the same places, with the same parts in the same order, and with every name that is no local resolved to what it
stands for in the module of the unit. -/
theorem bodies_mirror_source (options : CheckOptions) (units : List SourceUnit)
    (noErrors : (ofUnits options units).log.hasErrors = false) :
    let report := ofUnits options units
    List.Forall₂ (fun source (function : TypedFunction) => function.name = source.name ∧
      function.Mirrors report.context.table source.module [] source.decl)
        (declaredIn Declaration.function? units) report.program.functions ∧
    List.Forall₂ (TypedStruct.Mirrors report.context.table) (declaredIn Declaration.struct? units)
      report.program.structs := by
  intro report
  rw [ofUnits, hasErrors_guard, Bool.or_eq_false_iff] at noErrors
  obtain ⟨noErrors, _⟩ := noErrors
  let context := (unguarded options units).context
  let program := (unguarded options units).program
  have known : ∀ site ∈ program.sites, site.type ≠ .error := by
    intro site mem isError
    have fits := (unguarded_sound options units True noErrors (.inl trivial)).1 site mem
    rw [TypeSite.Fits, isError] at fits
    exact fits
  obtain ⟨functions, structs⟩ := located_eq_declaredIn noErrors
  constructor
  · have each := Finds.mapM fun own mem =>
      context.checkFunction_mirrors own (functions_spelled options units own mem)
    rw [← functions, List.forall₂_map_left_iff]
    rw [← context.checkFunctions_eq_mapM] at each
    refine forall₂_of_known (each (context.checkStructs context.table.structs |>.run {}).2) fun function mem =>
      TypedFunction.known_body fun site isSite => known site ?_
    exact mem_append_right _ (mem_flatMap.2 ⟨function, mem, isSite⟩)
  · have each := Finds.mapM fun own mem =>
      context.checkStruct_mirrors own (structs_spelled options units own mem)
    rw [← structs, List.forall₂_map_left_iff]
    rw [← context.checkStructs_eq_mapM] at each
    refine forall₂_of_known (each {}) fun struct mem method isMethod =>
      TypedFunction.known_body fun site isSite => known site (mem_append_left _ ?_)
    exact mem_flatMap.2 ⟨struct, mem, mem_append_right _ (mem_flatMap.2 ⟨method, isMethod, isSite⟩)⟩

/-- `enum Color: int64 { red }`, `pick[T](value: T) -> T`, which answers its parameter, and `main(again: bool) ->
int64`. That binds `pair` to `(pick(1), Color.red)`, `counts` to a dictionary from `Color.red` to `pair.0` and `size`
to a list of `counts.len()`, and answers `pair.0` in one branch and `size.len()` in the other. -/
def paletteUnit : SourceUnit :=
  let int : TypeExpr := ⟨.named "int64" [], {}⟩
  let read (name : String) : Expr := ⟨.ident name, {}⟩
  let call (callee : Expr) (arguments : List Expr) : Expr := ⟨.call callee [] arguments, {}⟩
  let member (object : Expr) (name : String) : Expr := ⟨.field object name, {}⟩
  let one : Expr := ⟨.literal (.integer 1), {}⟩
  let red := member (read "Color") "red"
  let color : EnumDecl := { name := "Color", backing := int, variants := [{ name := "red" }] }
  let pick : FunctionDecl :=
    { name := "pick", typeParameters := [{ name := "T" }]
      parameters := [{ name := "value", type := ⟨.named "T" [], {}⟩ }], returns := [⟨.named "T" [], {}⟩]
      body := some [.ret (some (read "value")) {}] }
  let main : FunctionDecl :=
    { name := "main", parameters := [{ name := "again", type := ⟨.named "bool" [], {}⟩ }], returns := [int]
      body := some [
        .bind "pair" none (some ⟨.tuple [call (read "pick") [one], red], {}⟩) {},
        .bind "counts" none (some ⟨.dict [(red, member (read "pair") "0")], {}⟩) {},
        .bind "size" none (some ⟨.list [call (member (read "counts") "len") []], {}⟩) {},
        .expression ⟨.cond (read "again") [.ret (some (member (read "pair") "0")) {}]
          (some [.expression (call (member (read "size") "len") [])]), {}⟩] }
  { id := ⟨0⟩, declarations := [.enum color, .function pick, .function main] }

theorem bodies_mirror_source_palette :
    (ofUnits {} [paletteUnit]).log.hasErrors = false ∧
    List.Forall₂ (fun source (function : TypedFunction) => function.name = source.name ∧
      function.Mirrors (ofUnits {} [paletteUnit]).context.table source.module [] source.decl)
        (declaredIn Declaration.function? [paletteUnit]) (ofUnits {} [paletteUnit]).program.functions := by
  have noErrors : (ofUnits {} [paletteUnit]).log.hasErrors = false := by cbv
  exact ⟨noErrors, (bodies_mirror_source {} [paletteUnit] noErrors).1⟩

end CheckReport

end SemanticChecker
