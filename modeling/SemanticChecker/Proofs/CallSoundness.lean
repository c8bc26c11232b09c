import SemanticChecker.Proofs.Soundness.Report

/-! Calls that are checked without a report. Whatever is reported elsewhere in the program, the type arguments of such
a call satisfy their bounds, its arguments may be stored in its parameters with the type arguments put in, and its
result is what is declared. -/
namespace SemanticChecker

open List

theorem BoundTable.parameterCount?_le_one {name : String} {count : Nat}
    (found : standard.parameterCount? name = some count) : count ≤ 1 := by
  have all : ∀ entry ∈ standard.entries, entry.2.parameterCount ≤ 1 := by decide
  obtain ⟨bound, looked, rfl⟩ := Option.map_eq_some_iff.1 found
  exact all (name, bound) (mem_of_lookup looked)

/-- A place that admits the error type and some type parameters, these also in the arguments of bounds. -/
abbrev Arities.lenient (arities : Arities) (known : String → Prop) : Place :=
  arities.within True known

/-- The place of what is called. Its own type parameters are going to be replaced, and what their bounds mention goes
with them. -/
def Arities.calling (arities : Arities) (outer : String → Prop) (own : List String) : Place :=
  ⟨arities, fun name => outer name ∨ name ∈ own, fun name other => name ∈ own ∨ outer other, fun _ => False, True⟩

/-- Every type that a call is checked against mentions no type parameters but those known and its own. -/
structure CallShape.Seen (ctx : CheckContext) (known : String → Prop) (shape : CallShape) : Prop where
  typeParameters : ∀ t ∈ shape.typeParameters, t.IsParameter (ctx.arities.lenient fun _ => True)
  params : ∀ t ∈ shape.params, t.Fits (ctx.arities.calling known (Ty.namesOf shape.typeParameters))
  returns : ∀ t ∈ shape.returns, t.Fits (ctx.arities.calling known (Ty.namesOf shape.typeParameters))

theorem CallShape.seen_iff {ctx : CheckContext} {known : String → Prop} {shape : CallShape} :
    shape.Seen ctx known ↔ shape.Regular True ctx known :=
  ⟨fun h => ⟨h.typeParameters, h.params, h.returns⟩, fun h => ⟨h.typeParameters, h.params, h.returns⟩⟩

/-- The context of a program, whatever is reported while its declarations are collected. -/
structure CheckContext.Formed (ctx : CheckContext) : Prop where
  bounds : ctx.bounds = .standard
  table : ctx.table.Formed True ctx.bounds
  aliases : ctx.declared.aliases.Fits (ctx.arities.lenient fun _ => False)
  compositions : ctx.compositions = .ofTable ctx.table

namespace BodyContext

/-- What types mention in a body where some type parameters are known, whatever is reported. -/
abbrev scope (body : BodyContext) (known : String → Prop) : Place :=
  body.program.arities.lenient known

/-- What is known in a body, whatever is reported: its program is formed, and all types mention what is known. If that
is not everything, bounds must find no methods with type parameters of their own. -/
structure Formed (known : String → Prop) (body : BodyContext) : Prop where
  program : body.program.Formed
  typeParameters : ∀ t ∈ body.typeParameters, t.Fits (body.scope known)
  closed : (∀ name, known name) ∨ body.program.boundMethodsClosed = true

/-- What is known where an expression stands. -/
structure Scopes (body : BodyContext) (known : String → Prop) (env : Env) : Prop where
  formed : body.Formed known
  result : body.result.Fits (body.scope known)
  env : ∀ entry ∈ env, entry.2.Fits (body.scope known)

theorem Scopes.knows {body : BodyContext} {known : String → Prop} {env : Env} (h : body.Scopes known env) :
    body.Knows True known env := by
  obtain ⟨⟨⟨bounds, table, aliases, compositions⟩, typeParameters, closed⟩, result, env⟩ := h
  exact ⟨⟨⟨bounds, table, aliases, compositions, .inl trivial, .inl trivial⟩, closed, typeParameters, result⟩, env⟩

end BodyContext

namespace Ty

theorem Errorless.replace {σ : Instantiation} (values : ∀ name t, σ.get? name = some t → t.Errorless) {t : Ty}
    (h : t.Errorless) : (t.replace σ).Errorless := by
  induction t using byParts (Q := fun ts => ErrorlessAll ts → ErrorlessAll (replaceAll σ ts)) with
  | parameter name | bounded name =>
    rw [Ty.replace]
    cases found : σ.get? name with
    | none => exact h
    | some t => exact values name t found
  | _ => simp_all [Errorless, ErrorlessAll, Ty.replace, replaceAll, anyLeaf, anyLeafAll]

end Ty

/-- What a call of a shape comes to: type arguments, arguments and the type of the result go together. -/
structure CallShape.Applies (ctx : CheckContext) (shape : CallShape) (found : List Ty) (arguments : List TypedExpr)
    (result : Ty) : Prop where
  count : found.length = shape.typeParameters.length
  enough : shape.required ≤ arguments.length
  most : arguments.length ≤ shape.params.length
  stored : ∀ pair ∈ shape.params.zip arguments,
    ctx.isAssignable (pair.1.instantiate (shape.instantiation found)) pair.2.type = true
  bounds : ∀ t ∈ shape.typeParameters, ∀ name bound, CheckContext.boundOf? t = some (name, bound) →
    ∃ u bindings, (shape.instantiation found).get? name = some u ∧
      ctx.checkBound u (CheckContext.instantiateBound (shape.instantiation found) bound) = .ok bindings
  result : result = .ofReturns (shape.returns.map (Ty.instantiate (shape.instantiation found)))

namespace BodyContext

variable {body : BodyContext} {known : String → Prop} {env : Env}

/-- What types mention that bring no error type in. -/
abbrev Plain (body : BodyContext) (known : String → Prop) (t : Ty) : Prop :=
  body.Open True known t ∧ t.Errorless

theorem hereditary_plain (body : BodyContext) (known : String → Prop) : Ty.Hereditary (body.Plain known) :=
  (Ty.hereditary_fits _).and Ty.hereditary_errorless

theorem Knows.checkArguments_admits (h : body.Knows True known env) (given : List Expr) (call : OpenCall) (position : Nat)
    (params : List Ty) : Ensures (checkArguments body env (some call) position params given) fun answer =>
      (∀ t ∈ params, body.Plain known t) → call.unifier.Sound (body.Plain known) →
      (∀ argument ∈ answer.1, argument.type.Errorless) → answer.1.length = given.length ∧
        ∃ later, answer.2 = some later ∧ call.Grows (body.Plain known) later ∧
          ∀ pair ∈ params.zip answer.1, later.Admits body.program pair.1 pair.2.type := by
  induction given generalizing call position params with
  | nil =>
    rw [checkArguments]
    refine .pure fun _ _ _ => ⟨rfl, call, rfl, .refl, ?_⟩
    rw [zip_nil_right]
    exact fun _ mem => by cases mem
  | cons argument rest ih =>
    rw [checkArguments]
    dsimp only
    split
    · exact (body.report_ensures _ _ fun _ => False).bind fun _ => (ih _ _ _).bind fun _ => .pure fun _ => False.elim
    · refine (checkExpr_yields body True known argument env _).1.bind fun first => ?_
      cases params with
      | nil =>
        refine (Ensures.pure (Q := fun next => next = call) rfl).bind fun next => ?_
        refine (ih next _ _).bind fun answer => .pure ?_
        rintro more rfl _ _ sound errorless
        obtain ⟨count, later, isLast, grows, _⟩ := more (fun _ mem => by cases mem) sound
          (forall_mem_cons.1 errorless).2
        exact ⟨congrArg Nat.succ count, later, isLast, grows, fun _ mem => by cases mem⟩
      | cons parameter params =>
        have errorless : False ∨ ∀ t, body.Plain known t → t.Errorless := .inr fun _ => And.right
        have accepts := body.acceptArgument_yields (hereditary_plain body known) errorless call position parameter first
          argument.span
        refine accepts.1.bind fun next => (ih next _ params).bind fun answer => .pure ?_
        intro more accepted accepts plain sound errorless
        obtain ⟨here, there⟩ := forall_mem_cons.1 plain
        obtain ⟨mine, others⟩ := forall_mem_cons.1 errorless
        have type := (accepts h fun t closed =>
          OpenCall.closed?_fits (fun index => (sound.holds index).1) here.1 closed).type
        obtain ⟨step, admits⟩ := accepted here ⟨type.withSlots, mine⟩ type.hasSlot
        have next := (step.unifier sound).1
        obtain ⟨count, later, isLast, grows, each⟩ := more there next others
        exact ⟨congrArg Nat.succ count, later, isLast, step.trans grows,
          forall_mem_cons.2 ⟨(admits.resolve_left id sound).grows next grows, each⟩⟩

theorem satisfied_of_meets {inside place outer : Place} {call : OpenCall} (within : call.Within inside place)
    {found : List Ty} (finds : call.Finds (Ty.namesOf call.shape.typeParameters) found)
    (closed : ∀ index, ¬ outer.slot index) {goal : BoundGoal} (fits : Ty.FitAll outer goal.bound.arguments)
    (isSlot : call.slots.get? goal.parameter = some goal.slot) (meets : call.Meets body.program goal) :
    ∃ u bindings, (call.shape.instantiation found).get? goal.parameter = some u ∧
      body.program.checkBound u (CheckContext.instantiateBound (call.shape.instantiation found) goal.bound) =
        .ok bindings := by
  obtain ⟨candidate, bindings, isClosed, satisfied, each⟩ := meets
  refine ⟨candidate, bindings, ?_, BoundTable.check_iff.2 ⟨satisfied, ?_⟩⟩
  · rw [within.get?_instantiation finds, isSlot, Option.map_some, ← (OpenCall.closed?_eq_some.1 isClosed).2,
      Unifier.resolve_eq_fill]
  · have same : goal.bound.arguments.map (Ty.instantiate (call.shape.instantiation found)) =
        goal.bound.arguments.map fun t => call.unifier.resolve (t.instantiate call.slots) :=
      map_congr_left fun t mem => (within.resolve_instantiate finds closed (Ty.fitAll_iff.1 fits t mem)).symm
    intro pair mem
    rw [CheckContext.instantiateBound, same] at mem
    exact .inr (each pair mem).1

/-- A call that is opened without a report has as many arguments as it may have, and no error type comes in. -/
theorem Regular.openTarget_starts (h : body.Regular True known) {shape : CallShape}
    (regular : shape.Regular True body.program known)
    (params : ∀ t ∈ shape.params, t.Errorless) {typeArguments : List TypeExpr}
    (written : ∀ type ∈ typeArguments, Finds (body.lowerType type) fun lowered => ∀ t ∈ lowered, t.Errorless)
    (callee : Callee) (count : Nat) (span : Span) :
    Ensures (body.openTarget ⟨callee, some shape⟩ typeArguments count span) fun call =>
      ∃ start inside, call = some start ∧ start.shape = shape ∧ start.Within inside (body.place True known) ∧
        start.unifier.Sound (body.Plain known) ∧ (∀ t ∈ start.params, body.Plain known t) ∧
        shape.required ≤ count ∧ count ≤ shape.params.length := by
  have lowers : ∀ type ∈ typeArguments, body.Lowers False True (body.Plain known) type := by
    intro type mem
    have lowered := body.lowerType_yields True known type
    refine .of_finds (lowered.1.mono fun _ _ => trivial) fun s _ t found => ?_
    have fits := lowered.2 trivial s h
    rw [found] at fits
    exact ⟨fits.withSlots, written type mem s t found⟩
  refine (openCall_yields (hereditary_plain body known) shape lowers count span).1.bind fun start => .pure ?_
  intro opened
  obtain ⟨within, sound, rfl, counted⟩ := opened trivial _ _ regular.within
  refine ⟨start, _, rfl, rfl, within, sound, fun t mem => ⟨within.params_fit t mem, ?_⟩, counted.resolve_left id⟩
  obtain ⟨parameter, isOne, rfl⟩ := mem_map.1 mem
  rw [Ty.instantiate_eq_replace]
  refine (params parameter isOne).replace fun name t found => ?_
  obtain ⟨_, index, rfl⟩ := within.named name t found
  rfl

/-- A call that is closed without a report applies what is called, if its arguments will do. -/
theorem Regular.closeCall_applies (h : body.Regular True known) (call : OpenCall) (span : Span) (arguments : List TypedExpr) :
    Ensures (body.closeCall call span) fun closed => ∀ inside, call.Within inside (body.place True known) →
      call.unifier.Sound (body.Open True known) →
      (∀ t ∈ call.shape.typeParameters, t.IsParameter (body.place True fun _ => True)) →
      call.shape.required ≤ arguments.length → arguments.length ≤ call.shape.params.length →
      (∀ pair ∈ call.params.zip arguments, call.Admits body.program pair.1 pair.2.type) →
        call.shape.Applies body.program closed.1 arguments closed.2 := by
  refine (closeCall_yields False.elim (fun _ : True => h.binds) call span).1.mono fun closed closes => ?_
  intro inside within sound parameters enough most admits
  obtain ⟨_, _, closes⟩ := closes trivial inside within sound fun t mem => (parameters t mem).named
  obtain ⟨later, grows, finds, result, met⟩ := closes.resolve_left id
  have within := within.grows grows
  rw [← grows.shape] at parameters ⊢
  refine ⟨?_, grows.shape ▸ enough, grows.shape ▸ most, fun pair mem => ?_, fun t mem name bound isBounded => ?_, result⟩
  · exact finds.count.symm.trans (Ty.length_namesOf parameters)
  · refine within.stored_of_admits finds (of_mem_zip mem).1 ((admits (_, pair.2) ?_).grows sound grows)
    rw [OpenCall.params, zip_map_left, ← grows.slots, ← grows.shape]
    exact mem_map_of_mem mem
  · cases t with
    | bounded _ boundName boundArguments =>
      cases isBounded
      obtain ⟨arity, fits⟩ := parameters _ mem
      change body.program.bounds.parameterCount? boundName = some boundArguments.length at arity
      rw [h.program.bounds] at arity
      obtain ⟨slot, isSlot⟩ := within.slots name (Ty.mem_namesOf.2 ⟨_, mem, rfl⟩)
      have isGoal : ⟨name, slot, boundName, boundArguments⟩ ∈ boundGoals call := by
        refine mem_filterMap.2 ⟨_, grows.shape ▸ mem, ?_⟩
        change (call.slots.get? name).bind _ = _
        rw [← grows.slots, isSlot]
        rfl
      have single := met _ isGoal (BoundTable.parameterCount?_le_one arity)
      exact satisfied_of_meets within finds (fun _ => id) fits isSlot single
    | _ => cases isBounded

theorem Knows.checkCall_applies (h : body.Knows True known env) {shape : CallShape}
    (regular : shape.Regular True body.program known)
    (params : ∀ t ∈ shape.params, t.Errorless) {typeArguments : List TypeExpr}
    (written : ∀ type ∈ typeArguments, Finds (body.lowerType type) fun lowered => ∀ t ∈ lowered, t.Errorless)
    (callee : Callee) (given : List Expr) (span : Span) :
    Ensures (body.checkCall env typeArguments given span ⟨callee, some shape⟩) fun e =>
      ∃ found arguments, e.kind = .call callee found arguments ∧ ((∀ argument ∈ arguments, argument.type.Errorless) →
        arguments.length = given.length ∧ shape.Applies body.program found arguments e.type) := by
  refine (h.regular.openTarget_starts regular params written callee given.length span).bind fun call => ?_
  cases call with
  | none =>
    refine (checkArguments_yields body True known given env none 1 _).1.bind fun answer => ?_
    refine (body.closeTarget_yields True known env callee answer.2 answer.1 span).1.mono ?_
    rintro _ _ _ ⟨_, _, ⟨⟩, _⟩
  | some start =>
    refine (h.checkArguments_admits given start 1 start.params).bind fun answer => ?_
    dsimp only
    unfold closeTarget
    split
    · rename_i call isCall
      refine (h.regular.closeCall_applies call span answer.1).bind fun closed => .pure ?_
      rintro closes passed ⟨_, inside, ⟨⟩, rfl, within, sound, plain, enough, most⟩
      refine ⟨closed.1, answer.1, rfl, fun errorless => ?_⟩
      obtain ⟨count, other, isLast, grows, admits⟩ := passed plain sound errorless
      cases isCall.symm.trans isLast
      have sound := (grows.unifier sound).1
      have parameters := regular.typeParameters
      rw [← grows.shape] at parameters enough most ⊢
      refine ⟨count, closes inside (within.grows grows) ⟨fun index => (sound.holds index).1, sound.settled⟩ parameters
        (count ▸ enough) (count ▸ most) fun pair mem => admits pair ?_⟩
      rwa [OpenCall.params, grows.shape, grows.slots] at mem
    · rename_i isNone
      refine .pure ?_
      rintro passed ⟨_, _, ⟨⟩, _, _, sound, plain, _⟩
      refine ⟨[], answer.1, rfl, fun errorless => ?_⟩
      obtain ⟨_, _, isLast, _⟩ := passed plain sound errorless
      cases isNone.symm.trans isLast

/-- The check of a call is sound. What is called has a shape that mentions known type parameters and its own, and its
type parameters are such, whatever expression is called. For every shape of this kind, a call that is checked without a
report applies it, if no error type is mentioned by its parameters, by the type arguments that are written and by the
arguments. -/
theorem call_sound (h : body.Scopes known env) {typeArguments : List TypeExpr}
    (written : ∀ type ∈ typeArguments, Finds (body.lowerType type) fun lowered => ∀ t ∈ lowered, t.Errorless)
    (given : List Expr) (span : Span) :
    (∀ callee mode, checkExpr body env mode ⟨.call callee typeArguments given, span⟩ =
        body.callTarget env span callee >>= body.checkCall env typeArguments given span ∧
      Finds (body.callTarget env span callee) fun target => ∀ shape ∈ target.shape, shape.Seen body.program known) ∧
    ∀ (callee : Callee) (shape : CallShape), shape.Seen body.program known → (∀ t ∈ shape.params, t.Errorless) →
      Ensures (body.checkCall env typeArguments given span ⟨callee, some shape⟩) fun e =>
        ∃ found arguments, e.kind = .call callee found arguments ∧
          ((∀ argument ∈ arguments, argument.type.Errorless) →
            arguments.length = given.length ∧ shape.Applies body.program found arguments e.type) := by
  refine ⟨fun callee mode => ⟨checkExpr_call mode callee typeArguments given, fun s => ?_⟩, fun callee shape seen params =>
    h.knows.checkCall_applies (CallShape.seen_iff.1 seen) params written callee given span⟩
  have value := checkExpr_yields body True known callee.subject env (.value none)
  exact fun shape mem => CallShape.seen_iff.2 (((callTarget_yields value span).2 trivial s h.knows).shape shape mem)

/-- A program without declarations but an alias `Loops`, which stands for `List[Loop]` where `Loop` has no meaning. -/
def loopBody : BodyContext where
  program :=
    { declared := { table := { symbols := [("Loops", .typeAlias)] }, aliases := ⟨[("Loops", .resolved (.list .error))]⟩ }
      bounds := .standard
      compositions := .ofTable { symbols := [("Loops", .typeAlias)] }
      options := {} }
  module := .root
  typeParameters := []

theorem loopBody_scopes {env : Env} (fit : ∀ entry ∈ env, entry.2.Fits (loopBody.scope fun _ => True)) :
    loopBody.Scopes (fun _ => True) env := by
  have named : loopBody.program.table.Named := by
    intro name symbol found
    cases mem_singleton.1 (mem_of_lookup found)
    trivial
  have table : loopBody.program.table.Formed True loopBody.program.bounds :=
    ⟨named, fun _ _ => nofun, fun _ _ => nofun, fun _ _ => nofun, fun _ => nofun⟩
  have program : loopBody.program.Formed := ⟨rfl, table, forall_mem_singleton.2 trivial, rfl⟩
  exact ⟨⟨program, fun _ => nofun, .inl fun _ => trivial⟩, trivial, fit⟩

/-- A function of some parameters and a result that all have the same type parameter as their type. -/
def alikeShape (name : String) (t : Ty) (count : Nat) : CallShape :=
  ⟨name, [t], .replicate count t, [t], count⟩

theorem alikeShape_seen (name : String) {t : Ty} (h : t.IsParameter (loopBody.scope fun _ => True)) (count : Nat) :
    (alikeShape name t count).Seen loopBody.program fun _ => True := by
  have fits : t.Fits (loopBody.program.arities.calling (fun _ => True) (Ty.namesOf [t])) :=
    (h.within fun _ _ => trivial).opening _
  exact ⟨forall_mem_singleton.2 h, fun _ mem => eq_of_mem_replicate mem ▸ fits,
    forall_mem_singleton.2 fits⟩

/-- What is said of a call: whether nothing is reported, the type of the result, and the types of the arguments. -/
def summary : TypedExpr × CheckState → Bool × Ty × List Ty
  | (⟨.call _ _ arguments, t, _⟩, s) => (s.diagnostics.isEmpty, t, arguments.map TypedExpr.type)
  | _ => (false, .error, [])

theorem summary_eq {answer : TypedExpr × CheckState} {t : Ty} {types : List Ty} (h : summary answer = (true, t, types)) :
    answer.2.diagnostics = [] ∧ answer.1.type = t ∧ ∀ callee found arguments,
      answer.1.kind = .call callee found arguments → arguments.map TypedExpr.type = types := by
  obtain ⟨⟨kind, type, span⟩, s⟩ := answer
  cases kind with
  | call =>
    obtain ⟨silent, rfl, rfl⟩ : s.diagnostics = [] ∧ type = t ∧ _ = types := by simpa [summary] using h
    refine ⟨silent, rfl, ?_⟩
    rintro _ _ _ ⟨⟩
    rfl
  | _ => cases h

/-- `least(1, 2)` for `fn least[T: Ordered](x: T, y: T) -> T`. -/
theorem summary_least : summary ((loopBody.checkCall [] [] [⟨.literal (.integer 1), {}⟩, ⟨.literal (.integer 2), {}⟩] {}
      ⟨.function ⟨0⟩, some (alikeShape "least" (.bounded "T" "Ordered" []) 2)⟩).run {}) =
    (true, .primitive .int64, [.primitive .int64, .primitive .int64]) := by
  cbv

theorem openTarget_loops : (loopBody.openTarget ⟨.function ⟨0⟩, some (alikeShape "same" (.parameter "T") 1)⟩
      [⟨.named "Loops" [], {}⟩] 1 {}).run {} =
    (some ⟨alikeShape "same" (.parameter "T") 1, [("T", .slot 0)], ⟨[(0, .list .error)]⟩⟩, ⟨1, []⟩) := by
  cbv

/-- `same[Loops](xs)` for `fn same[T](x: T) -> T`, where `xs` is a `List[int64]`. -/
theorem summary_loops : summary ((loopBody.checkCall [("xs", .list (.primitive .int64))] [⟨.named "Loops" [], {}⟩]
      [⟨.ident "xs", {}⟩] {} ⟨.function ⟨0⟩, some (alikeShape "same" (.parameter "T") 1)⟩).run {}) =
    (true, .list .error, [.list (.primitive .int64)]) := by
  rw [checkCall, StateT.run_bind]
  erw [openTarget_loops]
  decide +kernel

/-- `least(1, 2)` applies `least`, as `int64` is ordered. -/
theorem call_sound_least : ∃ found arguments, arguments.length = 2 ∧
    (alikeShape "least" (.bounded "T" "Ordered" []) 2).Applies loopBody.program found arguments (.primitive .int64) := by
  have parameter : (Ty.bounded "T" "Ordered" []).IsParameter (loopBody.scope fun _ => True) := ⟨rfl, trivial⟩
  have written : ∀ type ∈ ([] : List TypeExpr), Finds (loopBody.lowerType type) fun lowered =>
      ∀ t ∈ lowered, t.Errorless := fun _ mem => by cases mem
  have scopes : loopBody.Scopes (fun _ => True) [] := loopBody_scopes fun _ mem => by cases mem
  obtain ⟨new, added, _, answer⟩ := (call_sound scopes written [⟨.literal (.integer 1), {}⟩, ⟨.literal (.integer 2), {}⟩]
    {}).2 (.function ⟨0⟩) _ (alikeShape_seen "least" parameter 2) (by decide) {}
  obtain ⟨silent, type, types⟩ := summary_eq summary_least
  obtain rfl : new = [] := append_right_eq_self.1 (added.symm.trans silent)
  obtain ⟨found, arguments, isCall, applies⟩ := answer fun _ mem => by cases mem
  rw [type] at applies
  refine ⟨found, arguments, applies (forall_mem_map.1 ?_)⟩
  rw [types _ _ _ isCall]
  decide

/-- Without a condition on the type arguments that are written, the check of a call is not sound: `xs`, which
`same[Loops](xs)` is given, may not be stored where a `List` of the error type is expected. -/
theorem call_unsound_of_error : ¬ ∀ (body : BodyContext) (env : Env) (typeArguments : List TypeExpr) (given : List Expr)
    (span : Span) (callee : Callee) (shape : CallShape), body.Scopes (fun _ => True) env →
      shape.Seen body.program (fun _ => True) → (∀ t ∈ shape.params, t.Errorless) →
      Ensures (body.checkCall env typeArguments given span ⟨callee, some shape⟩) fun e =>
        ∃ found arguments, e.kind = .call callee found arguments ∧
          ((∀ argument ∈ arguments, argument.type.Errorless) →
            arguments.length = given.length ∧ shape.Applies body.program found arguments e.type) := by
  intro all
  have parameter : (Ty.parameter "T").IsParameter (loopBody.scope fun _ => True) := trivial
  have scopes : loopBody.Scopes (fun _ => True) [("xs", .list (.primitive .int64))] :=
    loopBody_scopes (forall_mem_singleton.2 trivial)
  obtain ⟨new, added, _, answer⟩ := all loopBody _ [⟨.named "Loops" [], {}⟩] [⟨.ident "xs", {}⟩] {} (.function ⟨0⟩) _ scopes
    (alikeShape_seen "same" parameter 1) (by decide) {}
  obtain ⟨silent, type, types⟩ := summary_eq summary_loops
  obtain rfl : new = [] := append_right_eq_self.1 (added.symm.trans silent)
  obtain ⟨found, arguments, isCall, applies⟩ := answer fun _ mem => by cases mem
  obtain ⟨argument, rfl, isList⟩ := map_eq_singleton_iff.1 (types _ _ _ isCall)
  obtain ⟨_, applies⟩ := applies (forall_mem_singleton.2 (isList ▸ rfl))
  have result : _ = (Ty.parameter "T").instantiate _ := applies.result
  have stored := applies.stored (.parameter "T", argument) mem_cons_self
  rw [← result, type, isList] at stored
  exact absurd stored (by decide +kernel)

end BodyContext

end SemanticChecker
