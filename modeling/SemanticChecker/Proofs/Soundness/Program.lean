import SemanticChecker.Proofs.Soundness.Bodies

/-! The check of declarations. What holds of bodies holds of functions, of methods and of the defaults of
fields, and so of the whole program. -/
namespace SemanticChecker

open List

theorem FlowAnalysis.external_diagnostics (analysis : FlowAnalysis) : External analysis.diagnostics := by
  intro d hd
  obtain ⟨violation, _, rfl⟩ := mem_map.1 hd
  show violation.code ≠ .internal
  unfold FlowViolation.code
  split <;> nofun

theorem Block.tail?_eq_some {block : Block} {value : Expr} :
    block.tail? = some value ↔ block.getLast? = some (.expression value) := by
  unfold Block.tail?
  split
  · rename_i other found
    simp [found]
  · rename_i other
    exact ⟨nofun, fun found => (other value found).elim⟩

namespace BodyContext

structure AcceptsBody (body : BodyContext) (error : Prop) (known : String → Prop) (env : Env) (source : Block)
    (typed : TypedBlock) : Prop where
  fits : Ty.FitAll (body.place error known) typed.stored
  rule : body.program.Strict error → BodyTyping body.program body.result env typed
  count : typed.statements.length = source.length

section Bodies

variable (body : BodyContext) (error : Prop) (known : String → Prop) (env : Env)

theorem checkBlock_yields (mode : Mode) (block : Block) : Yields error (body.checkBlock env mode block) fun typed =>
    body.Knows error known env → mode.Fits (body.place error known) → body.AcceptsBlock error known env typed ∧
      ∃ statements, typed = .ofStatements mode statements ∧ body.PassesStatements error known env block statements := by
  refine (checkStatements_yields body error known block env mode).bind fun statements => .pure fun passes h fits => ?_
  have passed := passes h fits
  exact ⟨passed.accepts.block mode, statements, rfl, passed⟩

theorem checkResult_yields (function : String) (span : Span) (block : Block) :
    Yields error (body.checkResult env function span block) fun typed =>
      body.Knows error known env → body.AcceptsBody error known env block typed := by
  have result : body.Knows error known env → (Mode.value (some body.result)).Fits (body.place error known) := by
    rintro h t ⟨⟩
    exact h.regular.result
  refine (body.checkBlock_yields error known env (.value (some body.result)) block).bind fun typed => ?_
  split
  · rename_i diverges
    refine .pure fun checks h => ?_
    obtain ⟨accepts, statements, rfl, passed⟩ := checks h (result h)
    exact ⟨accepts.fits, fun strict => ⟨accepts.typed strict, .inr (.inl diverges)⟩, passed.count⟩
  · dsimp only
    split
    · rename_i tail found
      refine (Yields.of_ensures (body.expectAssignable_ensures _ _ _ _)).bind fun _ => .pure fun stored checks h => ?_
      obtain ⟨accepts, statements, rfl, passed⟩ := checks h (result h)
      obtain ⟨value, last⟩ := passed.last tail (Block.tail?_eq_some.1 found)
      have yielded : (TypedBlock.ofStatements (.value (some body.result)) statements).type = value.type := by
        simp only [TypedBlock.ofStatements, last, TypedBlock.type]
      refine ⟨accepts.fits, fun strict => ⟨accepts.typed strict, .inr (.inr ⟨value, last, ?_⟩)⟩, passed.count⟩
      exact yielded ▸ h.regular.assignable strict h.regular.result accepts.type stored
    · refine body.refused_yields fun on checks h => ?_
      obtain ⟨accepts, statements, rfl, passed⟩ := checks h (result h)
      exact ⟨accepts.fits, fun strict => absurd on strict.clean, passed.count⟩

omit body env in
/-- What a block is typed as does not depend on what the flow analysis reports after it. -/
theorem reportFlow_yields (flow : FlowAnalysis) (typed : TypedBlock) : Yields error (do
      CheckM.reportAll flow.diagnostics
      return typed) fun answer => answer = typed :=
  (Yields.of_ensures (CheckM.reportAll_ensures flow.external_diagnostics)).bind fun _ => .pure fun _ => rfl

theorem checkFunctionBody_yields (parameters : List (String × Span)) (function : String) (span : Span) (block : Block) :
    Yields error (body.checkFunctionBody env parameters function span block) fun typed =>
      body.Knows error known env → body.AcceptsBody error known env block typed := by
  unfold checkFunctionBody
  dsimp only
  split
  · rename_i isUnit
    refine (body.checkBlock_yields error known env .statement block).bind fun typed => ?_
    refine (reportFlow_yields error _ typed).mono fun answer same checks h => ?_
    obtain ⟨accepts, statements, rfl, passed⟩ := checks h fun t mem => by cases mem
    rw [same]
    exact ⟨accepts.fits, fun strict => ⟨accepts.typed strict, .inl isUnit⟩, passed.count⟩
  · refine (body.checkResult_yields error known env function span block).bind fun typed => ?_
    refine (reportFlow_yields error _ typed).mono fun answer same accepts => ?_
    rw [same]
    exact accepts

theorem checkDefaults_yields : ∀ fields : List (FieldDecl × FieldDef),
    Yields error (body.checkDefaults fields) fun defaults => body.Knows error known [] →
      (∀ field ∈ fields, field.2.type.Fits (body.place error known)) →
        ∀ entry ∈ defaults, body.Accepts error known [] entry.2
  | [] => .pure fun _ _ _ mem => by cases mem
  | (decl, field) :: rest => by
    have others := checkDefaults_yields rest
    rw [checkDefaults]
    cases decl.default with
    | none => exact others.mono fun _ all h fit => all h (forall_mem_cons.1 fit).2
    | some value =>
      refine Yields.bind (Q := fun typed => body.Knows error known [] → field.type.Fits (body.place error known) →
        body.Accepts error known [] typed) ?_ fun typed => others.bind fun defaults => .pure ?_
      · refine (checkExpr_yields body error known value [] (.value (some field.type))).bind fun typed => ?_
        refine (Yields.of_ensures (body.expectAssignable_ensures _ _ _ _)).bind fun _ => .pure fun _ accepts h fits => ?_
        refine accepts h ?_
        rintro t ⟨⟩
        exact fits
      · intro all first h fit
        obtain ⟨mine, more⟩ := forall_mem_cons.1 fit
        exact forall_mem_cons.2 ⟨first h mine, all h more⟩

end Bodies

end BodyContext

/-- The place of types where some type parameters are in scope. If `everything` holds, all others are too. -/
def CheckContext.scope (ctx : CheckContext) (error everything : Prop) (parameters : List Ty) : Place :=
  ctx.arities.within error fun name => everything ∨ name ∈ Ty.namesOf parameters

/-- Whether a type fits at its site; `everything` lets type parameters stand anywhere. -/
def TypeSite.Fits (ctx : CheckContext) (error everything : Prop) (site : TypeSite) : Prop :=
  site.type.Fits (ctx.arities.within error fun _ => everything ∨ site.generic = true)

theorem Ty.isEmpty_of_mem_namesOf {ts : List Ty} {name : String} (h : name ∈ namesOf ts) : ts.isEmpty = false := by
  obtain ⟨t, ht, _⟩ := mem_namesOf.1 h
  cases ts with
  | nil => cases ht
  | cons => rfl

section Answers

variable {ctx : CheckContext} {error everything : Prop}

theorem TypeSite.fits_ofTypes {parameters stored : List Ty} {types : List (Ty × Span)}
    (inside : (types.map Prod.fst).Sublist stored) (fit : Ty.FitAll (ctx.scope error everything parameters) stored) :
    ∀ site ∈ ofTypes (!parameters.isEmpty) types, site.Fits ctx error everything := by
  refine forall_mem_map.2 fun site mem => ?_
  refine (Ty.fitAll_iff.1 fit _ (inside.subset (mem_map_of_mem mem))).within fun name => Or.imp_right fun named => ?_
  rw [Ty.isEmpty_of_mem_namesOf named]
  rfl

/-- Whether a typed function is what its declaration asks for: its types fit where its type parameters, and those of the
struct it is in, are in scope, and it obeys its rule. -/
structure TypedFunction.Answers (ctx : CheckContext) (error everything : Prop) (outer : List Ty) (receiver : Option Ty)
    (declared : FunctionOutline) (function : TypedFunction) : Prop where
  fits : Ty.FitAll (ctx.scope error everything (outer ++ function.typeParameters)) function.stored
  generic : function.generic = !(outer ++ function.typeParameters).isEmpty
  typed : ctx.Strict error → function.Typed ctx receiver declared

theorem TypedFunction.Answers.sites {outer : List Ty} {receiver : Option Ty} {declared : FunctionOutline}
    {function : TypedFunction} (h : function.Answers ctx error everything outer receiver declared) :
    ∀ site ∈ function.sites, site.Fits ctx error everything := by
  rw [TypedFunction.sites, h.generic]
  refine TypeSite.fits_ofTypes ?_ h.fits
  rw [map_append, map_map, TypedFunction.stored, List.append_assoc function.typeParameters]
  refine Sublist.append ?_ (TypedBlock.typesOfOption_sublist _)
  simp [Function.comp_def]

structure TypedStruct.Answers (ctx : CheckContext) (error everything : Prop) (own : StructDef) (struct : TypedStruct) :
    Prop where
  fits : ∀ entry ∈ struct.stored, entry.2.Fits (ctx.scope error everything entry.1)
  sites : ∀ site ∈ struct.sites, site.Fits ctx error everything
  typed : ctx.Strict error → struct.Typed ctx own

theorem Signature.Regular.inBody {outer : List Ty} {s : Signature}
    (h : s.Regular error ctx.arities (· ∈ Ty.namesOf outer)) (everything : Prop) :
    (∀ t ∈ s.typeParameters, t.Fits (ctx.scope error everything (outer ++ s.typeParameters))) ∧
      s.type.Fits (ctx.scope error everything (outer ++ s.typeParameters)) := by
  have inside : ∀ name, name ∈ Ty.namesOf outer ∨ name ∈ Ty.namesOf s.typeParameters →
      everything ∨ name ∈ Ty.namesOf (outer ++ s.typeParameters) := by
    intro name mentioned
    rw [Ty.namesOf, filterMap_append, mem_append]
    exact .inr mentioned
  refine ⟨fun t mem => Ty.Fits.within ?_ inside, h.type.of_declaring.within inside⟩
  exact (h.typeParameters t mem).within fun name named => .inr (Ty.mem_namesOf.2 ⟨t, mem, named⟩)

end Answers

theorem mem_placeDefaults {own : StructId} {field : TypedField} : ∀ {fields : List ResolvedField}
    {defaults : List (String × TypedExpr)}, field ∈ placeDefaults own fields defaults →
      field.type ∈ fields.map ResolvedField.type ∧ ∀ value ∈ field.default, ∃ name, (name, value) ∈ defaults
  | first :: rest, defaults, h => by
    rw [placeDefaults] at h
    split at h
    · rcases mem_cons.1 h with rfl | h
      · refine ⟨mem_cons_self, fun value found => ⟨first.name, ?_⟩⟩
        exact mem_reverse.1 (mem_of_lookup found)
      · obtain ⟨type, each⟩ := mem_placeDefaults h
        refine ⟨mem_cons_of_mem _ type, fun value found => ?_⟩
        obtain ⟨name, mem⟩ := each value found
        exact ⟨name, (mem_filter.1 mem).1⟩
    · rcases mem_cons.1 h with rfl | h
      · exact ⟨mem_cons_self, fun _ found => by cases found⟩
      · obtain ⟨type, each⟩ := mem_placeDefaults h
        exact ⟨mem_cons_of_mem _ type, each⟩

theorem forall_mem_right {α β : Type} {R : α → β → Prop} {P : β → Prop} {as : List α} {bs : List β}
    (h : List.Forall₂ R as bs) (each : ∀ a b, R a b → P b) : ∀ b ∈ bs, P b := by
  induction h with
  | nil => exact fun _ h => by cases h
  | cons first _ ih => exact forall_mem_cons.2 ⟨each _ _ first, ih⟩

theorem map_eq_of_forall₂ {α β γ : Type} {f : α → γ} {g : β → γ} {as : List α} {bs : List β}
    (h : List.Forall₂ (fun a b => f a = g b) as bs) : as.map f = bs.map g := by
  rw [← List.forall₂_eq_eq_eq, List.forall₂_map_left_iff, List.forall₂_map_right_iff]
  exact h

section Each

variable {σ α β : Type} {work : α → StateM σ β} {R : α → β → Prop}

theorem Ensures.mapM [Reports σ] {as : List α} (each : ∀ a ∈ as, Ensures (work a) (R a)) :
    Ensures (as.mapM work) (Forall₂ R as) := by
  induction as with
  | nil => exact .pure .nil
  | cons a rest ih =>
    obtain ⟨first, others⟩ := forall_mem_cons.1 each
    rw [mapM_cons]
    exact first.bind fun _ => (ih others).bind fun _ => .pure fun more first => .cons first more

theorem Finds.mapM {as : List α} (each : ∀ a ∈ as, Finds (work a) (R a)) : Finds (as.mapM work) (Forall₂ R as) := by
  induction as with
  | nil => exact .pure .nil
  | cons a rest ih =>
    obtain ⟨first, others⟩ := forall_mem_cons.1 each
    rw [mapM_cons]
    exact first.bind fun _ holds => (ih others).bind fun _ more => .pure (.cons holds more)

theorem Yields.mapM [Reports σ] {always : Prop} {as : List α} (each : ∀ a ∈ as, Yields always (work a) (R a)) :
    Yields always (as.mapM work) (Forall₂ R as) :=
  ⟨.mapM fun a mem => (each a mem).1, fun on => .mapM fun a mem => (each a mem).2 on⟩

end Each

theorem placeDefaults_fit {place : Place} (own : StructId) {fields : List ResolvedField}
    {defaults : List (String × TypedExpr)} (types : ∀ field ∈ fields, field.type.Fits place)
    (values : ∀ entry ∈ defaults, Ty.FitAll place entry.2.stored) :
    ∀ t ∈ (placeDefaults own fields defaults).flatMap TypedField.stored, t.Fits place := by
  intro t mem
  obtain ⟨field, isOne, stored⟩ := mem_flatMap.1 mem
  obtain ⟨isType, default⟩ := mem_placeDefaults isOne
  rcases mem_cons.1 stored with rfl | stored
  · exact forall_mem_map.2 types _ isType
  · cases isDefault : field.default with
    | none =>
      rw [isDefault] at stored
      cases stored
    | some value =>
      rw [isDefault] at stored
      obtain ⟨name, given⟩ := default value isDefault
      exact Ty.fitAll_iff.1 (values _ given) t stored

namespace CheckContext.Regular

variable {ctx : CheckContext} {error everything : Prop} (h : ctx.Regular error)
  (closed : everything ∨ ctx.boundMethodsClosed = true)
include h closed

theorem inBody (module : ModulePath) {parameters : List Ty} {result : Ty}
    (fit : ∀ t ∈ parameters, t.Fits (ctx.scope error everything parameters))
    (resultFits : result.Fits (ctx.scope error everything parameters)) :
    BodyContext.Regular error (fun name => everything ∨ name ∈ Ty.namesOf parameters)
      { program := ctx, module, typeParameters := parameters, result } :=
  ⟨h, closed.imp_left fun all _ => .inl all, fit, resultFits⟩

theorem checkFunction_answers (module : ModulePath) (decl : FunctionDecl) {outer : List Ty} {signature : Signature}
    {receiver : Option Ty} (outside : ∀ t ∈ outer ++ receiver.toList,
      t.Fits (ctx.arities.within error (· ∈ Ty.namesOf outer)))
    (head : signature.Regular error ctx.arities (· ∈ Ty.namesOf outer)) (name : String) (owner : Option StructRef)
    (span : Span) {generic : Bool} (isGeneric : generic = !(outer ++ signature.typeParameters).isEmpty) :
    Yields error (BodyContext.checkFunction
      { program := ctx, module, typeParameters := outer ++ signature.typeParameters } decl signature receiver)
      fun block => TypedFunction.Answers ctx error everything outer receiver (signature.outline name decl)
        { name, owner, typeParameters := signature.typeParameters, params := signature.params
          returns := signature.returns, body := block, generic, span } := by
  obtain ⟨parameters, type⟩ := head.inBody everything
  have outside : ∀ t ∈ outer ++ receiver.toList,
      t.Fits (ctx.scope error everything (outer ++ signature.typeParameters)) := fun t mem =>
    (outside t mem).within fun name named => .inr (by
      rw [Ty.namesOf, filterMap_append]
      exact mem_append_left _ named)
  obtain ⟨outside, self⟩ := forall_mem_append.1 outside
  have regular := h.inBody closed module (forall_mem_append.2 ⟨outside, parameters⟩)
    (Ty.fits_ofReturns (Ty.fitAll_iff.1 type.2))
  have stored : ∀ block, Ty.FitAll (ctx.scope error everything (outer ++ signature.typeParameters))
      (TypedBlock.storedInOption block) → Ty.FitAll (ctx.scope error everything (outer ++ signature.typeParameters))
        (signature.typeParameters ++ signature.parameterTypes ++ signature.returns ++ TypedBlock.storedInOption block) :=
    fun block fits => Ty.fitAll_append.2
      ⟨Ty.fitAll_append.2 ⟨Ty.fitAll_append.2 ⟨Ty.fitAll_iff.2 parameters, type.1⟩, type.2⟩, fits⟩
  unfold BodyContext.checkFunction
  split
  · rename_i noBody
    refine .pure ⟨stored none trivial, isGeneric, fun _ => ⟨?_, fun _ mem => by cases mem⟩⟩
    rw [Signature.outline, noBody]
    rfl
  · rename_i block isBody
    have params : ∀ entry ∈ signature.params.reverse,
        entry.2.Fits (ctx.scope error everything (outer ++ signature.typeParameters)) :=
      fun entry mem => Ty.fitAll_iff.1 type.1 _ (mem_map_of_mem (mem_reverse.1 mem))
    refine (BodyContext.checkFunctionBody_yields _ error (fun name => everything ∨
      name ∈ Ty.namesOf (outer ++ signature.typeParameters)) _ _ _ _ block).bind fun typed => .pure fun accepts => ?_
    have accepted := accepts ⟨regular, forall_mem_append.2 ⟨params, forall_mem_map.2 self⟩⟩
    refine ⟨stored (some typed) accepted.fits, isGeneric, fun strict => ⟨?_, ?_⟩⟩
    · rw [Signature.outline, isBody, Option.map_some, ← accepted.count]
      rfl
    · rintro _ ⟨⟩
      exact accepted.rule strict

theorem checkFunction {own : FunctionDef} (declared : own ∈ ctx.table.functions) : Yields error (ctx.checkFunction own)
    (TypedFunction.Answers ctx error everything [] none (own.signature.outline own.name own.decl)) := by
  have regular := h.table.functions own declared
  have head : own.signature.Regular error ctx.arities (· ∈ Ty.namesOf []) :=
    ⟨fun t mem => (regular.typeParameters t mem).mono ⟨rfl, fun _ => Or.imp_left False.elim, fun _ _ _ =>
      Or.imp_left False.elim, fun h => h⟩ fun _ => id, regular.type.mono ⟨rfl, fun _ => Or.imp_left False.elim,
      fun _ _ _ => Or.imp_left False.elim, fun h => h⟩ fun _ => id⟩
  refine CheckM.inSource_yields ?_ own.unit
  exact (@checkFunction_answers ctx error everything h closed own.module own.decl [] _ none (fun _ mem => by cases mem)
    head own.name none own.decl.span _ rfl).bind fun block => .pure id

section Struct

variable {own : StructDef} {id : StructId} (found : ctx.table.struct? id = some own)
include found

theorem checkMethods (module : ModulePath) : ∀ methods : List (FunctionDecl × MethodDef),
    (∀ method ∈ methods, method.2 ∈ own.shape.methods) →
      Yields error (BodyContext.checkMethods { program := ctx, module, typeParameters := own.typeParameters } own methods)
        (Forall₂ (fun (decl, method) => TypedFunction.Answers ctx error everything own.typeParameters
          (some own.selfType) (method.signature.outline method.name decl)) methods)
  | [], _ => .pure .nil
  | (decl, method) :: rest, declared => by
    obtain ⟨first, more⟩ := forall_mem_cons.1 declared
    have self := h.selfType_fits found
    have outside : ∀ t ∈ own.typeParameters ++ (some own.selfType).toList,
        t.Fits (ctx.arities.within error (· ∈ Ty.namesOf own.typeParameters)) :=
      forall_mem_append.2 ⟨Ty.fitAll_iff.1 self.2, forall_mem_singleton.2 self⟩
    have isGeneric : (!own.typeParameters.isEmpty || method.signature.isGeneric) =
        !(own.typeParameters ++ method.signature.typeParameters).isEmpty := by
      cases own.typeParameters <;> rfl
    have head := (h.table.structs id own found).methods method first
    refine (h.checkFunction_answers closed module decl outside head method.name (some (ctx.structRef own.id)) method.span
      isGeneric).bind fun block => (checkMethods module rest more).bind fun typed => .pure ?_
    exact fun others answers => .cons answers others

theorem checkStruct : Yields error (ctx.checkStruct own) (TypedStruct.Answers ctx error everything own) := by
  obtain rfl := h.table.numbered id own found
  have scope : ∀ t : Ty, t.Fits (ctx.arities.within error (· ∈ Ty.namesOf own.typeParameters)) →
      t.Fits (ctx.scope error everything own.typeParameters) := fun _ fits => fits.within fun _ => .inr
  have self := scope _ (h.selfType_fits found)
  have unit : Ty.unit.Fits (ctx.scope error everything own.typeParameters) := trivial
  have regular := h.inBody closed own.module (Ty.fitAll_iff.1 self.2) unit
  refine CheckM.inSource_yields ?_ own.unit
  refine (BodyContext.checkDefaults_yields _ error (fun name => everything ∨ name ∈ Ty.namesOf own.typeParameters) _).bind
    fun defaults => ?_
  refine (h.checkMethods closed found own.module _ fun method mem => (of_mem_zip mem).2).bind fun methods => .pure ?_
  intro answered accepted
  have accepted := accepted ⟨regular, fun _ mem => by cases mem⟩ fun field mem =>
    scope _ ((h.table.structs own.id own found).fields _ (of_mem_zip mem).2)
  suffices answers : ∀ shown : List ResolvedField,
      (∀ field ∈ shown, field.type.Fits (ctx.scope error everything own.typeParameters)) →
        TypedStruct.Answers ctx error everything own ⟨own.name, ctx.structRef own.id, own.selfType, own.typeParameters,
          placeDefaults own.id shown defaults, methods⟩ by
    split
    · exact answers _ fun field mem => scope _ (h.field_fits found ‹_› field mem)
    · exact answers _ fun _ mem => by cases mem
  intro shown known
  have fields := placeDefaults_fit own.id known fun entry mem => (accepted entry mem).fits
  refine ⟨forall_mem_append.2 ⟨forall_mem_map.2 (forall_mem_append.2 ⟨?_, fields⟩), ?_⟩, forall_mem_append.2 ⟨?_, ?_⟩,
    fun strict => ⟨?_, ?_, ?_⟩⟩
  · exact forall_mem_cons.2 ⟨self, Ty.fitAll_iff.1 self.2⟩
  · refine forall_mem_flatMap.2 (forall_mem_right answered fun _ method answer => forall_mem_map.2 ?_)
    exact Ty.fitAll_iff.1 answer.fits
  · refine forall_mem_flatMap.2 fun field mem => TypeSite.fits_ofTypes ?_
      (Ty.fitAll_iff.2 fun t stored => fields t (mem_flatMap.2 ⟨field, mem, stored⟩))
    exact (TypedExpr.typesOfOption_sublist field.default).cons_cons field.type
  · exact forall_mem_flatMap.2 (forall_mem_right answered fun _ _ answer => answer.sites)
  · have named : Forall₂ (fun (pair : FunctionDecl × MethodDef) (f : TypedFunction) => pair.2.name = f.name)
        (own.decl.methods.zip own.shape.methods) methods :=
      answered.imp fun _ _ answer => (congrArg FunctionOutline.name (answer.typed strict).outline).symm
    have declared := (h.methods.resolve_left strict.clean) own.id own found
    have count : own.shape.methods.length ≤ own.decl.methods.length := by
      simpa using Nat.le_of_eq (congrArg List.length declared)
    calc methods.map TypedFunction.name
        = ((own.decl.methods.zip own.shape.methods).map Prod.snd).map MethodDef.name := by
          rw [map_map]
          exact (map_eq_of_forall₂ named).symm
      _ = own.shape.methods.map MethodDef.name := by rw [map_snd_zip count]
      _ = own.decl.methods.map FunctionDecl.name := declared
  · exact answered.imp fun _ _ answer => answer.typed strict
  · intro field member value isDefault
    obtain ⟨name, mem⟩ := (mem_placeDefaults member).2 value isDefault
    exact (accepted _ mem).typed strict

end Struct

/-- All types in a typed program fit where they are stored, and it obeys the typing rules. -/
theorem checkBodies : Yields error ctx.checkBodies fun program =>
    (∀ entry ∈ program.stored, entry.2.Fits (ctx.scope error everything entry.1)) ∧
      (∀ site ∈ program.sites, site.Fits ctx error everything) ∧ (ctx.Strict error → program.Typed ctx) := by
  rw [CheckContext.checkBodies, checkStructs_eq_mapM, checkFunctions_eq_mapM]
  refine (Yields.mapM (R := fun own => TypedStruct.Answers ctx error everything own) fun own mem => ?_).bind
    fun structs => (Yields.mapM fun own mem => h.checkFunction closed mem).bind fun functions => .pure ?_
  · obtain ⟨index, found⟩ := mem_iff_getElem?.1 mem
    exact h.checkStruct closed (show ctx.table.struct? ⟨index⟩ = some own from found)
  intro functionsAnswer structsAnswer
  refine ⟨forall_mem_append.2 ⟨?_, ?_⟩, forall_mem_append.2 ⟨?_, ?_⟩, fun strict => ⟨?_, ?_⟩⟩
  · exact forall_mem_flatMap.2 (forall_mem_right structsAnswer fun _ _ => TypedStruct.Answers.fits)
  · refine forall_mem_flatMap.2 (forall_mem_right functionsAnswer fun _ function answer => forall_mem_map.2 ?_)
    exact Ty.fitAll_iff.1 answer.fits
  · exact forall_mem_flatMap.2 (forall_mem_right structsAnswer fun _ _ => TypedStruct.Answers.sites)
  · exact forall_mem_flatMap.2 (forall_mem_right functionsAnswer fun _ _ => TypedFunction.Answers.sites)
  · exact functionsAnswer.imp fun _ _ answer => answer.typed strict
  · exact structsAnswer.imp fun _ _ answer => answer.typed strict

end CheckContext.Regular

end SemanticChecker
