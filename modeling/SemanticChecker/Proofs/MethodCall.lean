import SemanticChecker.Check.Program
import SemanticChecker.Proofs.Composition.Composed

/-! What a call of a method is checked against. The method is declared by the struct of the receiver or by an
ancestor of it. The call has a fresh slot for every type parameter of the method; but the arguments of the
receiver are put in by name first, one struct after the other, and the slots by name after them. That comes to
the declared signature with all of it put in at once, if no type parameter of the method has the name of another
one on the way. -/
namespace SemanticChecker

open List

open Relation

namespace Compositions

variable {table : DeclTable}

/-- Names are apart from the type parameters of a struct, of an ancestor, and of all structs in between. -/
def ApartBetween (table : DeclTable) (id above : StructId) (names : List String) : Prop :=
  ∀ between own, ReflTransGen table.Composes id between → ReflTransGen table.Composes between above →
    table.struct? between = some own → ∀ name ∈ names, name ∉ Ty.namesOf own.typeParameters

/-- A method of a layout goes back to a declaration by the struct that it originates from. That struct, applied to
`others`, is the struct of the layout applied to `arguments`, or one of its ancestors. -/
structure GoesBack (table : DeclTable) (id : StructId) (own : StructDef) (arguments : List Ty) (layout : Layout)
    (method : ResolvedMethod) (origin : StructDef) (decl : MethodDef) (others : List Ty) : Prop where
  declared : table.struct? method.origin = some origin
  mem : decl ∈ origin.shape.methods
  name : decl.name = method.name
  typeParameters : decl.signature.typeParameters = method.signature.typeParameters
  above : ReflTransGen table.Composes id method.origin
  applied : .struct method.origin others ∈
    .struct id arguments :: layout.ancestors.map (Ty.instantiate (own.instantiation arguments))
  count : (Ty.namesOf origin.typeParameters).length = others.length
  names : Ty.namesAll others ⊆ Ty.namesAll arguments
  type : ApartBetween table id method.origin (Ty.namesOf decl.signature.typeParameters) →
    method.signature.type.replace (own.instantiation arguments) =
      decl.signature.type.replace (origin.instantiation others)

variable {id : StructId} {own : StructDef} {arguments : List Ty} {method : ResolvedMethod}

theorem GoesBack.ofOwn (regular : table.Regular) (found : table.struct? id = some own)
    (count : (Ty.namesOf own.typeParameters).length = arguments.length) (layout : Layout)
    (mem : method ∈ own.ownMethods) : ∃ decl, GoesBack table id own arguments layout method own decl arguments := by
  obtain ⟨decl, isOne, rfl⟩ := mem_map.1 mem
  have same : own.id = id := regular.numbered id own found
  subst same
  exact ⟨decl, found, isOne, rfl, rfl, .refl, mem_cons_self, count, List.Subset.refl _, fun _ => rfl⟩

theorem Composed.goesBack (regular : table.Regular) {layout : Layout} (composed : Composed table id layout)
    (found : table.struct? id = some own) (count : (Ty.namesOf own.typeParameters).length = arguments.length)
    (mem : method ∈ layout.methods) :
    ∃ origin decl others, GoesBack table id own arguments layout method origin decl others := by
  induction composed generalizing own arguments method with
  | @alone _ own again _ =>
    cases found.symm.trans again
    exact ⟨own, (GoesBack.ofOwn regular found count _ mem).imp fun _ back => ⟨arguments, back⟩⟩
  | @merged id own parents tainted again named layouts before complete reported ih =>
    cases found.symm.trans again
    rw [StructDef.methods_compose] at mem
    rcases StructDef.mem_methods_mergeMembers mem with mem | mem
    · exact ⟨own, (GoesBack.ofOwn regular found count _ mem).imp fun _ back => ⟨arguments, back⟩⟩
    obtain ⟨_, isOne, mem⟩ := mem_flatMap.1 mem
    obtain ⟨pair, isPair, rfl⟩ := mem_map.1 isOne
    obtain ⟨base, isBase, rfl⟩ := mem_map.1 mem
    obtain ⟨inner, other, applies⟩ := regular.composes _ own found pair.1 (named pair isPair)
    have composes := applies.composes found (named pair isPair)
    have inside := (before pair isPair).scoped regular applies.declared
    let outer := inner.map (Ty.replace (own.instantiation arguments))
    have seen : (Ty.struct pair.1.id inner).replace (own.instantiation arguments) = .struct pair.1.id outer := by
      rw [Ty.replace, Ty.replaceAll_eq_map]
    have length : (Ty.namesOf other.typeParameters).length = outer.length := by
      rw [applies.count, length_map]
    obtain ⟨origin, decl, others, back⟩ := ih pair isPair applies.declared length isBase
    -- What the parent is for its arguments, the struct is for what they stand for in the end.
    have ancestor : ∀ t ∈ Ty.struct pair.1.id outer :: pair.2.ancestors.map (Ty.instantiate (other.instantiation outer)),
        t ∈ (own.compose table (parents.map fun pair => (pair.1.type, pair.2)) tainted).1.layout.ancestors.map
          (Ty.instantiate (own.instantiation arguments)) := by
      rw [StructDef.ancestors_compose]
      refine forall_mem_cons.2 ⟨mem_map.2 ⟨pair.1.type, ?_, ?_⟩, fun t mem => ?_⟩
      · exact StructDef.mem_ancestors_mergeMembers.2 ⟨_, isOne, .inl rfl⟩
      · rw [applies.type, Ty.instantiate_eq_replace, seen]
      · obtain ⟨higher, isHigher, rfl⟩ := mem_map.1 mem
        refine mem_map.2 ⟨_, StructDef.mem_ancestors_mergeMembers.2 ⟨_, isOne, .inr ⟨higher, isHigher, rfl⟩⟩, ?_⟩
        rw [applies.parentInstantiation, Ty.instantiate_eq_replace, Ty.instantiate_eq_replace,
          Ty.instantiate_eq_replace]
        exact Ty.replace_ofArguments applies.count fun name known => .inl (inside.ancestors higher isHigher known)
    refine ⟨origin, decl, others, back.declared, back.mem, back.name, back.typeParameters,
      .head composes back.above, mem_cons_of_mem _ (ancestor _ back.applied), back.count, ?_, fun apart => ?_⟩
    · intro name mem
      have mentioned : name ∈ ((Ty.struct pair.1.id inner).replace (own.instantiation arguments)).names := by
        rw [seen]
        exact back.names mem
      exact (Ty.mem_names_ofArguments count mentioned).resolve_left fun other => other.2 (applies.names other.1)
    · have parted : ∀ name ∈ base.signature.type.names, name ∈ Ty.namesOf other.typeParameters ∨
          (own.instantiation arguments).get? name = none := by
        intro name mentioned
        refine (inside.methods base isBase name mentioned).symm.imp_right fun isOwn => ?_
        refine Instantiation.get?_eq_none (apart id own .refl (.head composes back.above) found name ?_)
        rwa [back.typeParameters]
      rw [type_seen applies]
      exact (Ty.replace_ofArguments applies.count parted).trans
        (back.type fun between own lower upper => apart between own (.head composes lower) upper)

end Compositions

/-- Slots for type parameters, numbered in order from the first one on. -/
def Instantiation.ofSlots (first : Nat) (names : List String) : Instantiation :=
  .ofPairs ((names.zipIdx first).map fun (name, index) => (name, .slot index))

theorem Instantiation.get?_ofSlots_eq_none {first : Nat} {names : List String} {name : String} :
    (ofSlots first names).get? name = none ↔ name ∉ names := by
  have keys : ((names.zipIdx first).map fun (name, index) => (name, Ty.slot index)).map Prod.fst = names := by
    simp [List.map_map, Function.comp_def]
  rw [get?, lookup_eq_none_iff]
  constructor
  · intro differ known
    rw [← keys] at known
    obtain ⟨entry, mem, rfl⟩ := mem_map.1 known
    exact absurd rfl (bne_iff_ne.1 (differ entry (mem_reverse.2 mem)))
  · intro unknown entry mem
    refine bne_iff_ne.2 fun same => unknown ?_
    rw [same, ← keys]
    exact mem_map_of_mem (mem_reverse.1 mem)

theorem CheckM.run_bind {α β : Type} {work : CheckM α} {s later : CheckState} {a : α} (h : work.run s = (a, later))
    (f : α → CheckM β) : (work >>= f).run s = (f a).run later := by
  rw [StateT.run_bind, h]
  rfl

theorem CheckM.freshSlots_run (ts : List Ty) (s : CheckState) : (freshSlots ts).run s =
    (((Ty.namesOf ts).zipIdx s.nextSlot).map fun (name, index) => (name, .slot index),
      { s with nextSlot := s.nextSlot + (Ty.namesOf ts).length }) := by
  induction ts generalizing s with
  | nil => rfl
  | cons t rest ih =>
    rw [freshSlots, Ty.namesOf, filterMap_cons]
    cases t.parameterName? with
    | none => exact ih s
    | some name =>
      have step : (do let slot ← freshSlot; return (name, slot) :: (← freshSlots rest)).run s =
          ((name, .slot s.nextSlot) :: ((freshSlots rest).run { s with nextSlot := s.nextSlot + 1 }).1,
            ((freshSlots rest).run { s with nextSlot := s.nextSlot + 1 }).2) := rfl
      refine step.trans ?_
      rw [ih]
      simp [Ty.namesOf, Nat.add_assoc, Nat.add_comm 1]

namespace OpenCall

/-- The parameters and results that a call is checked against, with slots for type parameters. -/
def type (call : OpenCall) : Ty :=
  .function call.params (call.shape.returns.map (Ty.instantiate call.slots))

theorem type_eq (call : OpenCall) :
    call.type = (Ty.function call.shape.params call.shape.returns).replace call.slots := by
  simp [type, params, Ty.replace, Ty.replaceAll_eq_map, Ty.instantiate_eq_replace]

/-- A call that goes on. It may have found more of its type arguments, but what it is checked against is the same. -/
def Continues (call later : OpenCall) : Prop :=
  later.shape = call.shape ∧ later.slots = call.slots

end OpenCall

def Leaves {α : Type} (work : CheckM α) (answer : α → Prop) : Prop :=
  ∀ s : CheckState, (work.run s).2.nextSlot = s.nextSlot ∧ answer (work.run s).1

namespace Leaves

variable {α β : Type}

theorem pure {a : α} {Q : α → Prop} (h : Q a) : Leaves (Pure.pure a) Q :=
  fun _ => ⟨rfl, h⟩

theorem bind {x : CheckM α} {f : α → CheckM β} {Q : α → Prop} {R : β → Prop} (first : Leaves x Q)
    (second : ∀ a, Q a → Leaves (f a) R) : Leaves (x >>= f) R := by
  intro s
  obtain ⟨same, answer⟩ := first s
  obtain ⟨again, last⟩ := second _ answer (x.run s).2
  exact ⟨again.trans same, last⟩

theorem reportAll (diagnostics : List Diagnostic) : Leaves (CheckM.reportAll diagnostics) fun _ => True :=
  fun _ => ⟨rfl, trivial⟩

end Leaves

namespace BodyContext

variable (body : BodyContext)

theorem lowerType_leaves (type : TypeExpr) : Leaves (body.lowerType type) fun _ => True :=
  .bind (.reportAll _) fun _ _ => .bind (.reportAll _) fun _ _ => .pure trivial

theorem unify_leaves (u : Unifier) (role : Role) (expected found : Ty) (span : Span) :
    Leaves (body.unify u role expected found span) fun _ => True := by
  rw [unify]
  cases (u.unify expected found).clash with
  | none => exact .pure trivial
  | some error => exact .bind (.reportAll _) fun _ _ => .pure trivial

theorem bindTypeArguments_leaves (call : OpenCall) (pairs : List (Ty × TypeExpr)) :
    Leaves (body.bindTypeArguments call pairs) call.Continues := by
  induction pairs generalizing call with
  | nil => exact .pure ⟨rfl, rfl⟩
  | cons pair rest ih =>
    rw [bindTypeArguments]
    refine .bind (body.lowerType_leaves pair.2) fun t _ => ?_
    split
    · exact .bind (body.unify_leaves _ _ _ _ _) fun unifier _ => ih { call with unifier }
    · exact ih call

/-- Work that starts a call of a shape, with a fresh slot for every type parameter. -/
def Opens (shape : CallShape) (work : CheckM OpenCall) : Prop :=
  ∀ s : CheckState, (work.run s).1.shape = shape ∧
    (work.run s).1.slots = .ofSlots s.nextSlot (Ty.namesOf shape.typeParameters) ∧
    (work.run s).2.nextSlot = s.nextSlot + (Ty.namesOf shape.typeParameters).length

theorem Opens.freshSlots {shape : CallShape} {rest : List (String × Ty) → CheckM OpenCall}
    (h : ∀ slots, Leaves (rest slots) fun call => call.shape = shape ∧ call.slots = .ofPairs slots) :
    Opens shape (CheckM.freshSlots shape.typeParameters >>= rest) := by
  intro s
  have step : (CheckM.freshSlots shape.typeParameters >>= rest).run s =
      (rest ((CheckM.freshSlots shape.typeParameters).run s).1).run
        ((CheckM.freshSlots shape.typeParameters).run s).2 := rfl
  rw [step, CheckM.freshSlots_run]
  obtain ⟨taken, sameShape, sameSlots⟩ := h _ _
  exact ⟨sameShape, sameSlots, taken⟩

theorem Opens.refuse {shape : CallShape} {c : Prop} [Decidable c] {x : CheckM PUnit}
    {next : PUnit → CheckM OpenCall} (first : Leaves x fun _ => True) (rest : Opens shape (next ⟨⟩)) :
    Opens shape (if c then x >>= next else next ⟨⟩) := by
  split
  · intro s
    obtain ⟨sameShape, sameSlots, taken⟩ := rest (x.run s).2
    rw [(first s).1] at sameSlots taken
    exact ⟨sameShape, sameSlots, taken⟩
  · exact rest

theorem openCall_opens (shape : CallShape) (typeArguments : List TypeExpr) (argumentCount : Nat) (span : Span) :
    Opens shape (body.openCall shape typeArguments argumentCount span) := by
  unfold openCall
  dsimp only
  refine .refuse (.reportAll _) (.freshSlots fun slots => ?_)
  split
  · exact .pure ⟨rfl, rfl⟩
  · split
    · exact body.bindTypeArguments_leaves { shape, slots := .ofPairs slots } _
    · exact .bind (.reportAll _) fun _ _ => .pure ⟨rfl, rfl⟩

/-- The start of a call of a method, before any argument is looked at: what is called, and what the call is checked
against. -/
def openMethod (receiver : TypedExpr) (name : String) (typeArguments : List TypeExpr) (argumentCount : Nat)
    (calleeSpan span : Span) : CheckM (Callee × Option OpenCall) := do
  let target ← body.methodTarget receiver name calleeSpan span
  let call ← body.openTarget target typeArguments argumentCount span
  return (target.callee, call)

/-- The rest of a call: the arguments are matched with the parameters, one after the other, and the call is closed. -/
def finishCall (env : Env) (callee : Callee) (call : Option OpenCall) (given : List Expr) (span : Span) :
    CheckM TypedExpr := do
  let (given, call) ← checkArguments body env call 1 (openParams call) given
  body.closeTarget callee call given span

theorem checkExpr_method {env : Env} {object : Expr} (isValue : body.enumNamed? env object = none) (mode : Mode)
    (name : String) (typeArguments : List TypeExpr) (given : List Expr) (calleeSpan span : Span) :
    checkExpr body env mode ⟨.call ⟨.field object name, calleeSpan⟩ typeArguments given, span⟩ = (do
      let receiver ← checkExpr body env (.value none) object
      let (callee, call) ← body.openMethod receiver name typeArguments given.length calleeSpan span
      body.finishCall env callee call given span) := by
  rw [checkExpr, isValue]
  rfl

theorem acceptArgument_continues (call : OpenCall) (position : Nat) (parameter : Ty) (value : TypedExpr)
    (span : Span) : Finds (body.acceptArgument call position parameter value span) call.Continues := by
  have same : ∀ unifier, call.Continues { call with unifier } := fun _ => ⟨rfl, rfl⟩
  unfold acceptArgument
  dsimp only
  split
  · exact .pure (same _)
  · refine iteInduction (motive := fun work => Finds work call.Continues) (fun _ => .pure (same _)) fun _ => ?_
    exact .after fun _ => .pure (same _)

theorem checkArguments_continues (env : Env) (call : OpenCall) (position : Nat) (params : List Ty)
    (given : List Expr) : Finds (checkArguments body env (some call) position params given) fun answer =>
      ∃ last, answer.2 = some last ∧ call.Continues last := by
  induction given generalizing call position params with
  | nil =>
    rw [checkArguments]
    exact .pure ⟨call, rfl, rfl, rfl⟩
  | cons argument rest ih =>
    have next : ∀ later first, call.Continues later → Finds (do
        let (more, call) ← checkArguments body env (some later) (position + 1) params.tail rest
        return (first :: more, call)) fun answer => ∃ last, answer.2 = some last ∧ call.Continues last := by
      rintro later first ⟨shape, slots⟩
      refine .bind (ih later (position + 1) params.tail) ?_
      rintro _ ⟨last, isLast, again⟩
      exact .pure ⟨last, isLast, again.1.trans shape, again.2.trans slots⟩
    rw [checkArguments]
    dsimp only
    split
    · exact .after fun _ => next call _ ⟨rfl, rfl⟩
    · refine .after fun first => ?_
      cases params.head? with
      | none => exact next call first ⟨rfl, rfl⟩
      | some parameter =>
        refine .bind (body.acceptArgument_continues call position parameter first argument.span) fun later => ?_
        exact next later first

theorem openMethod_run {receiver : TypedExpr} {id : StructId} {arguments : List Ty}
    (applied : receiver.type = .struct id arguments) {name : String} {origin : StructId} {signature : Signature}
    (found : body.program.structMethod? id arguments name = some (origin, signature)) (typeArguments : List TypeExpr)
    (argumentCount : Nat) (calleeSpan span : Span) (s : CheckState) :
    ∃ call later, (body.openMethod receiver name typeArguments argumentCount calleeSpan span).run s =
        ((.method receiver origin name, some call), later) ∧
      call.shape = .ofSignature name signature ∧
      call.slots = .ofSlots s.nextSlot (Ty.namesOf signature.typeParameters) ∧
      later.nextSlot = s.nextSlot + (Ty.namesOf signature.typeParameters).length := by
  have target : body.methodTarget receiver name calleeSpan span =
      Pure.pure ⟨.method receiver origin name, some (.ofSignature name signature)⟩ := by
    rw [methodTarget, applied]
    dsimp only
    rw [found]
  refine ⟨_, _, ?_, body.openCall_opens (.ofSignature name signature) typeArguments argumentCount span s⟩
  rw [openMethod, target]
  rfl

end BodyContext

theorem CheckReport.context_ofUnits (options : CheckOptions) (units : List SourceUnit) :
    (ofUnits options units).context.table.Regular ∧
      (ofUnits options units).context.compositions = .ofTable (ofUnits options units).context.table :=
  ⟨Collected.ofUnits_regular .standard units, rfl⟩

namespace BodyContext

/-- A call of a method is checked against its declaration by the struct it originates from, which is the struct of
the receiver or an ancestor of it, with fresh slots for the type parameters of the method and arguments for those of
the struct, put in at once: if the type parameters of the method have names that no struct from the receiver's to the
one that declares the method gives to a type parameter, and that the arguments of the receiver do not mention. The
same goes for bounds that mention no type parameters of the struct. -/
theorem call_instantiates (options : CheckOptions) (units : List SourceUnit) {body : BodyContext}
    (within : body.program = (CheckReport.ofUnits options units).context) {env : Env} {object : Expr}
    (isValue : body.enumNamed? env object = none) {before s : CheckState} {receiver : TypedExpr}
    (checked : (checkExpr body env (.value none) object).run before = (receiver, s)) {id : StructId}
    {arguments : List Ty} (applied : receiver.type = .struct id arguments) {own : StructDef}
    (declared : body.program.table.struct? id = some own)
    (count : (Ty.namesOf own.typeParameters).length = arguments.length) {layout : Layout}
    (looked : body.program.layout? id = some layout) {name : String} {method : ResolvedMethod}
    (found : layout.method? name = some method) (mode : Mode) (typeArguments : List TypeExpr) (given : List Expr)
    (calleeSpan span : Span) :
    ∃ call later origin decl others,
      (checkExpr body env mode ⟨.call ⟨.field object name, calleeSpan⟩ typeArguments given, span⟩).run before =
        (body.finishCall env (.method receiver method.origin name) (some call) given span).run later ∧
      Finds (checkArguments body env (some call) 1 call.params given)
        (fun answer => ∃ last, answer.2 = some last ∧ call.Continues last) ∧
      body.program.table.struct? method.origin = some origin ∧ decl ∈ origin.shape.methods ∧ decl.name = name ∧
      .struct method.origin others ∈
        .struct id arguments :: layout.ancestors.map (Ty.instantiate (own.instantiation arguments)) ∧
      call.shape.typeParameters = decl.signature.typeParameters ∧
      call.slots = .ofSlots s.nextSlot (Ty.namesOf decl.signature.typeParameters) ∧
      later.nextSlot = s.nextSlot + (Ty.namesOf decl.signature.typeParameters).length ∧
      (Compositions.ApartBetween body.program.table id method.origin (Ty.namesOf decl.signature.typeParameters) →
        (∀ name ∈ Ty.namesOf decl.signature.typeParameters, name ∉ Ty.namesAll arguments) →
        call.type = decl.signature.type.replace (call.slots ++ origin.instantiation others)) ∧
      ∀ goal ∈ boundGoals call, (∀ name ∈ Ty.namesAll goal.bound.arguments,
          name ∈ Ty.namesOf decl.signature.typeParameters ∨ name ∉ Ty.namesOf origin.typeParameters) →
        goal.bound.arguments.map (Ty.instantiate call.slots) =
          goal.bound.arguments.map (Ty.replace (call.slots ++ origin.instantiation others)) := by
  obtain ⟨regular, composed⟩ := CheckReport.context_ofUnits options units
  rw [← within] at regular composed
  have inLayout : Compositions.Composed body.program.table id layout := by
    rw [CheckContext.layout?, composed] at looked
    exact Compositions.layout?_composed regular.numbered looked
  have isOne : method.name = name := by simpa using find?_some found
  obtain ⟨origin, decl, others, back⟩ :=
    inLayout.goesBack regular declared count (mem_of_find?_eq_some found)
  have reached : body.program.structMethod? id arguments name =
      some (method.origin, method.signature.instantiate (own.instantiation arguments)) := by
    rw [CheckContext.structMethod?, looked, CheckContext.instantiation, declared]
    simp [found]
  obtain ⟨call, later, run, shape, slots, taken⟩ :=
    body.openMethod_run applied reached typeArguments given.length calleeSpan span s
  rw [Signature.typeParameters_instantiate, ← back.typeParameters] at slots taken
  refine ⟨call, later, origin, decl, others, ?_, body.checkArguments_continues env call 1 call.params given,
    back.declared, back.mem, back.name.trans isOne, back.applied, ?_, slots, taken, fun apart fresh => ?_,
    fun goal _ known => ?_⟩
  · rw [body.checkExpr_method isValue, CheckM.run_bind checked, CheckM.run_bind run]
  · rw [shape, back.typeParameters]
    rfl
  · have seen : Ty.function call.shape.params call.shape.returns =
        decl.signature.type.replace (origin.instantiation others) := by
      rw [shape, ← back.type apart, ← Ty.instantiate_eq_replace, ← Signature.type_instantiate]
      rfl
    rw [call.type_eq, seen, slots]
    refine Ty.replace_replace_apart (fun other _ => ?_) fun other value entry mentioned mem => ?_
    · by_cases isOwn : other ∈ Ty.namesOf decl.signature.typeParameters
      · exact .inl (Instantiation.get?_eq_none
          (apart method.origin origin back.above .refl back.declared other isOwn))
      · exact .inr (Instantiation.get?_ofSlots_eq_none.2 isOwn)
    · refine Instantiation.get?_ofSlots_eq_none.2 fun isOwn => fresh mentioned isOwn (back.names ?_)
      rw [Ty.namesAll_eq_flatMap]
      exact mem_flatMap.2 ⟨value, (of_mem_zip (Instantiation.mem_zip_of_get? entry)).2, mem⟩
  · refine map_congr_left fun t mem => ?_
    rw [Ty.instantiate_eq_replace]
    refine Ty.replace_congr fun other mentioned => ?_
    rw [Instantiation.get?_append, slots]
    have inside : other ∈ Ty.namesAll goal.bound.arguments := by
      rw [Ty.namesAll_eq_flatMap]
      exact mem_flatMap.2 ⟨t, mem, mentioned⟩
    rcases known other inside with isOwn | free
    · cases slot : (Instantiation.ofSlots s.nextSlot (Ty.namesOf decl.signature.typeParameters)).get? other with
      | none => exact absurd isOwn (Instantiation.get?_ofSlots_eq_none.1 slot)
      | some value => rfl
    · rw [StructDef.instantiation, Instantiation.get?_eq_none free, Option.or_none]

/-- `struct Box[T] { swap[T](x: T) -> T; put[U](x: T, y: U) -> T; head[C: Collection[T]](c: C) -> T }` and
`struct Crate[V](Box[List[V]])`. -/
def boxUnit : SourceUnit :=
  let type (name : String) : TypeExpr := ⟨.named name [], {}⟩
  let applied (name : String) (argument : TypeExpr) : TypeExpr := ⟨.named name [argument], {}⟩
  let body : Option Block := some [.ret (some ⟨.ident "x", {}⟩) {}]
  let swap : FunctionDecl :=
    { name := "swap", typeParameters := [{ name := "T" }], parameters := [{ name := "x", type := type "T" }]
      returns := [type "T"], body }
  let put : FunctionDecl :=
    { name := "put", typeParameters := [{ name := "U" }]
      parameters := [{ name := "x", type := type "T" }, { name := "y", type := type "U" }]
      returns := [type "T"], body }
  let head : FunctionDecl :=
    { name := "head"
      typeParameters := [{ name := "C", bound := some { name := "Collection", arguments := [type "T"] } }]
      parameters := [{ name := "x", type := type "C" }], returns := [type "T"], body }
  { id := ⟨0⟩
    declarations := [
      .struct { name := "Box", typeParameters := [{ name := "T" }], methods := [swap, put, head] },
      .struct { name := "Crate", typeParameters := [{ name := "V" }]
                composes := [applied "Box" (applied "List" (type "V"))] }] }

/-- The body of a function without type parameters beside `Box` and `Crate`. -/
def boxBody : BodyContext where
  program := (CheckReport.ofUnits {} [boxUnit]).context
  module := .root
  typeParameters := []

/-- `b.put(x, b)`, where `b` is a `Crate[int64]`, which is a `Box[List[int64]]`. -/
theorem call_instantiates_put :
    let crate : Ty := .struct ⟨1⟩ [.primitive .int64]
    let env : Env := [("b", crate), ("x", .list (.primitive .int64))]
    let given : List Expr := [⟨.ident "x", {}⟩, ⟨.ident "b", {}⟩]
    ∃ call later origin decl others,
      (checkExpr boxBody env (.value none) ⟨.call ⟨.field ⟨.ident "b", {}⟩ "put", {}⟩ [] given, {}⟩).run {} =
        (boxBody.finishCall env (.method ⟨.ident "b", crate, {}⟩ ⟨0⟩ "put") (some call) given {}).run later ∧
      boxBody.program.table.struct? ⟨0⟩ = some origin ∧ decl ∈ origin.shape.methods ∧ decl.name = "put" ∧
      call.slots = [("U", .slot 0)] ∧
      call.type = decl.signature.type.replace (call.slots ++ origin.instantiation others) := by
  intro crate env given
  have within : boxBody.program = (CheckReport.ofUnits {} [boxUnit]).context := rfl
  have isValue : boxBody.enumNamed? env ⟨.ident "b", {}⟩ = none := rfl
  have checked : (checkExpr boxBody env (.value none) ⟨.ident "b", {}⟩).run {} = (⟨.ident "b", crate, {}⟩, {}) := by
    rw [checkExpr]
    rfl
  obtain ⟨own, declared, count⟩ : ∃ own ∈ boxBody.program.table.struct? ⟨1⟩,
      (Ty.namesOf own.typeParameters).length = [Ty.primitive .int64].length := by decide +kernel
  obtain ⟨layout, looked, method, found, isBox⟩ : ∃ layout ∈ boxBody.program.layout? ⟨1⟩,
      ∃ method ∈ layout.method? "put", method.origin = ⟨0⟩ := by decide +kernel
  have isU : ∀ origin ∈ boxBody.program.table.struct? ⟨0⟩, ∀ decl ∈ origin.shape.methods, decl.name = "put" →
      Ty.namesOf decl.signature.typeParameters = ["U"] := by decide +kernel
  have notU : ∀ own ∈ boxBody.program.table.structs, "U" ∉ Ty.namesOf own.typeParameters := by decide +kernel
  obtain ⟨call, later, origin, decl, others, run, _, declares, isOne, name, _, _, slots, _, type, _⟩ :=
    call_instantiates {} [boxUnit] within isValue checked rfl declared count looked found (.value none) [] given {} {}
  rw [isBox] at run declares
  have names := isU origin declares decl isOne name
  rw [names] at slots type
  refine ⟨call, later, origin, decl, others, run, declares, isOne, name, slots, type ?_ ?_⟩
  · intro between own _ _ found name mem
    rw [mem_singleton.1 mem]
    exact notU own (mem_of_getElem? found)
  · intro name _ mem
    cases mem

def boxName (type : Ty) : TypedExpr :=
  ⟨.ident "b", type, {}⟩

/-- The conditions cannot be left out. A type parameter of `swap` that has the name of one of `Box` is replaced by
its argument; one that the receiver's argument mentions is taken for the one of `put`; and the bound of `head` still
mentions the type parameter of `Box`. -/
theorem openMethod_mixes_names :
    ((boxBody.openMethod (boxName (.struct ⟨0⟩ [.primitive .int64])) "swap" [] 1 {} {}).run {}).1.2.map
        OpenCall.type = some (.function [.primitive .int64] [.primitive .int64]) ∧
    ((boxBody.openMethod (boxName (.struct ⟨0⟩ [.parameter "U"])) "put" [] 2 {} {}).run {}).1.2.map
        OpenCall.type = some (.function [.slot 0, .slot 0] [.slot 0]) ∧
    ((boxBody.openMethod (boxName (.struct ⟨0⟩ [.primitive .int64])) "head" [] 1 {} {}).run {}).1.2.map
        (fun call => (boundGoals call).map fun goal => goal.bound.arguments.map (Ty.instantiate call.slots)) =
      some [[.parameter "T"]] := by
  decide +kernel

end BodyContext

end SemanticChecker
