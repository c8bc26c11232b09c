import SemanticChecker.Proofs.Soundness.Call

/-! The checks of single nodes. Each says what it makes of parts that are accepted. -/
namespace SemanticChecker

open List

theorem Operator.isArithmetic_of_not {operator : Operator} : operator.isLogical = false →
    ¬ operator.isEquality = true → ¬ operator.isOrdering = true → operator.isArithmetic = true := by
  cases operator <;> decide

namespace BodyContext

section Accepted

variable {body : BodyContext} {error : Prop} {known : String → Prop} {env : Env}

theorem Regular.assignable (h : body.Regular error known) (strict : body.program.Strict error) {expected found : Ty}
    (left : expected.Fits (body.place error known)) (right : found.Fits (body.place error known))
    (done : error ∨ body.program.isAssignable expected found = true) : body.program.Assignable expected found :=
  have clean : ¬ (body.place error known).error := strict.clean
  h.program.assignable clean left right (done.resolve_left strict.clean)

theorem Accepts.eq_primitive {value : TypedExpr} (h : body.Accepts error known env value)
    (regular : body.Regular error known) (strict : body.program.Strict error) {kind : Primitive}
    (done : error ∨ body.program.isAssignable (.primitive kind) value.type = true) : value.type = .primitive kind :=
  have fits : (Ty.primitive kind).Fits (body.place error known) := trivial
  (regular.assignable strict fits h.type done).eq_primitive

theorem Accepts.binary {operator : Operator} {left right : TypedExpr} {t : Ty} {span : Span}
    (first : body.Accepts error known env left) (second : body.Accepts error known env right)
    (fits : t.Fits (body.place error known)) (rule : body.program.Strict error →
      ExprTyping body.program body.result env left → ExprTyping body.program body.result env right →
        ExprTyping body.program body.result env ⟨.binary operator left right, t, span⟩) :
    body.Accepts error known env ⟨.binary operator left right, t, span⟩ where
  fits := ⟨fits, Ty.fitAll_append.2 ⟨first.fits, second.fits⟩⟩
  typed strict := rule strict (first.typed strict) (second.typed strict)

theorem symbol?_inside (h : body.Regular error known) {name : String} {symbol : Symbol}
    (found : body.symbol? name = some symbol) : symbol.IsIn body.program.table := by
  obtain ⟨⟨qualified, _⟩, resolved, rfl⟩ := Option.map_eq_some_iff.1 found
  exact h.program.table.named.resolveName resolved

end Accepted

section Nodes

variable (body : BodyContext) (error : Prop) (known : String → Prop) (env : Env)

theorem checkLiteral_yields (expected : Option Ty) (span : Span) (value : Literal) :
    Yields error (body.checkLiteral expected span value) fun t =>
      (∀ s ∈ expected, s.Fits (body.place error known)) → body.Accepts error known env ⟨.literal value, t, span⟩ := by
  have literal : ∀ t : Ty, t.Fits (body.place error known) →
      (body.program.Strict error → ExprTyping body.program body.result env ⟨.literal value, t, span⟩) →
      body.Accepts error known env ⟨.literal value, t, span⟩ :=
    fun t fits typed => ⟨⟨fits, trivial⟩, typed⟩
  unfold checkLiteral
  split
  · rename_i number
    refine .check (body.report_yields _ _ _) (.pure fun holds _ => literal _ trivial fun strict => ?_)
    refine .integer ?_ (holds.resolve_right strict.clean)
    have default : body.program.options.defaultInteger.isNumeric = true := by
      rw [Primitive.isNumeric, strict.integer]
      rfl
    split
    · split
      · assumption
      · exact default
    · exact default
  · split
    · refine .pure fun _ => literal _ trivial fun strict => .float ?_
      split
      · assumption
      · exact strict.float
    · exact .pure fun _ => literal _ trivial fun strict => .float strict.float
  · exact .pure fun _ => literal _ trivial fun _ => .string
  · exact .pure fun _ => literal _ trivial fun _ => .boolean
  · split
    · exact .pure fun fits => literal _ (fits _ rfl) fun _ => .none
    · exact body.refused_yields fun on _ => .of_error on ⟨on, trivial⟩

theorem checkName_yields (name : String) (span : Span) : Yields error (body.checkName env name span) fun e =>
    body.Knows error known env → body.Accepts error known env e := by
  have refused : ∀ {kind : TypedExprKind}, kind.stored = [] → error → body.Knows error known env →
      body.Accepts error known env ⟨kind, .error, span⟩ :=
    fun none on _ => .of_error on ⟨on, none ▸ trivial⟩
  unfold checkName
  dsimp only
  split
  · rename_i t found
    exact .pure fun h => ⟨⟨h.env (name, t) (mem_of_lookup found), trivial⟩, fun _ => .ident found⟩
  · split
    · rename_i id symbol
      split
      · rename_i missing
        refine .pure fun h => ?_
        rw [DeclTable.function?, List.getElem?_eq_none_iff] at missing
        exact (Nat.not_lt.2 missing (symbol?_inside h.regular symbol)).elim
      · rename_i own found
        split
        · exact body.refused_yields (refused rfl)
        · rename_i plain
          have plain := Bool.eq_false_iff.2 plain
          refine .pure fun h => ⟨⟨?_, trivial⟩, fun _ => .functionRef found plain⟩
          exact h.regular.program.functionType_fits found plain known
    · exact body.refused_yields (refused rfl)
    · exact body.refused_yields (refused rfl)

theorem checkVariant_yields (id : EnumId) (variant : String) (span : Span) :
    Yields error (body.checkVariant id variant span) fun e => body.Regular error known →
      id.index < body.program.table.enums.length → body.Accepts error known env e := by
  unfold checkVariant
  dsimp only
  split
  · rename_i missing
    refine .pure fun h inside => ?_
    rcases h.program.enums with on | defined
    · exact .of_error on ⟨on, trivial⟩
    · obtain ⟨info, found⟩ := defined id inside
      rw [missing] at found
      cases found
  · rename_i info found
    split
    · rename_i index entry isOne
      refine .pure fun _ _ => ⟨⟨trivial, trivial⟩, fun _ => ?_⟩
      have isVariant : body.program.declared.enums.variant? id variant = some (index, entry) := by
        rw [EnumRegistry.variant?, found]
        exact isOne
      exact .enumVariant isVariant
    · exact body.refused_yields fun on _ _ => .of_error on ⟨on, trivial⟩

theorem checkMember_yields (object : TypedExpr) (name : String) (span : Span) :
    Yields error (body.checkMember object name span) fun e => body.Regular error known →
      body.Accepts error known env object → body.Accepts error known env e := by
  have refused : error → body.Regular error known → body.Accepts error known env object →
      body.Accepts error known env ⟨.field object name, .error, span⟩ :=
    fun on _ accepts => .of_error on ⟨on, accepts.fits⟩
  unfold checkMember
  dsimp only
  split
  · rename_i id arguments isStruct
    split
    · rename_i t found
      refine .pure fun h accepts => ⟨⟨?_, accepts.fits⟩, fun strict => .field (accepts.typed strict) isStruct found⟩
      exact h.program.fieldType_fits (isStruct ▸ accepts.type) found
    · exact body.refused_yields refused
  · rename_i slots isTuple
    split
    · exact body.refused_yields refused
    · split
      · rename_i t found
        refine .pure fun h accepts => ⟨⟨?_, accepts.fits⟩, fun strict => ?_⟩
        · have all : (Ty.tuple slots).Fits (body.place error known) := isTuple ▸ accepts.type
          exact Ty.fitAll_iff.1 all t (mem_of_getElem? found)
        · exact .tupleSlot (accepts.typed strict) isTuple found
      · exact body.refused_yields refused
  · rename_i isError
    refine .pure fun h accepts => refused ?_ h accepts
    have fits := accepts.type
    rwa [isError] at fits
  · exact body.refused_yields refused

theorem assignmentRole_ensures (target : TypedExpr) (span : Span) :
    Ensures (body.assignmentRole target span) fun role => (∃ one, role = some one) ∧ target.kind.IsPlace := by
  unfold assignmentRole
  split
  · rename_i name isIdent
    exact .pure ⟨⟨_, rfl⟩, by rw [isIdent]; trivial⟩
  · rename_i object name isField
    exact .pure ⟨⟨_, rfl⟩, by rw [isField]; trivial⟩
  · exact body.refused
  · exact body.refused

theorem checkOperator_yields {operator : Operator} (plain : operator.isLogical = false) (left right : TypedExpr)
    (span : Span) : Yields error (body.checkOperator operator left.type right.type span) fun t =>
      body.Regular error known → body.Accepts error known env left → body.Accepts error known env right →
        body.Accepts error known env ⟨.binary operator left right, t, span⟩ := by
  unfold checkOperator
  dsimp only
  split
  · rename_i isEquality
    refine .check (body.report_yields _ _ _) (.pure fun comparable h first second => ?_)
    refine first.binary second trivial fun strict l r => .equality isEquality l r ?_
    rcases Bool.or_eq_true_iff.1 (comparable.resolve_right strict.clean) with forth | back
    · exact .inl (h.assignable strict first.type second.type (.inr forth))
    · exact .inr (h.assignable strict second.type first.type (.inr back))
  · rename_i notEquality
    refine .check (body.report_yields _ _ _) ?_
    split
    · rename_i isOrdering
      refine .refuse (body.report_yields _ _ _) (.pure fun ordered same h first second => ?_)
      refine first.binary second trivial fun strict l r => ?_
      have noError := first.type.isError strict.clean
      have same : left.type = right.type := by
        simpa [noError, second.type.isError strict.clean] using same.resolve_right strict.clean
      have ordered : body.program.satisfies left.type "Ordered" = true := by
        simpa [noError, second.type.isError strict.clean, same] using ordered.resolve_left strict.clean
      exact .ordering isOrdering l r same ordered
    · rename_i notOrdering
      refine .refuse (body.report_yields _ _ _) (.pure fun numeric same h first second => ?_)
      split
      · rename_i isSame
        refine first.binary second first.type fun strict l r => ?_
        have noError := first.type.isError strict.clean
        have equal : left.type = right.type := by simpa [noError, second.type.isError strict.clean] using isSame
        refine .arithmetic (Operator.isArithmetic_of_not plain notEquality notOrdering) l r equal ?_
        by_cases concatenates : operator = .add ∧ left.type = .primitive .str
        · exact .inr concatenates
        · refine .inl (Decidable.byContradiction fun fails => numeric.resolve_left strict.clean ?_)
          rw [Bool.not_eq_true] at fails
          rw [Decidable.not_and_iff_not_or_not] at concatenates
          simpa [noError, second.type.isError strict.clean, ← equal, fails] using concatenates
      · rename_i differ
        have on := same.resolve_left differ
        exact first.binary second on fun strict => absurd on strict.clean

/-- A conditional takes a type that the value of every branch may be stored in, unless the branch returns. -/
theorem joinBranches_yields (expected : Option Ty) (thenBranch elseBranch : TypedBlock) (thenSpan elseSpan : Span) :
    Yields error (body.joinBranches expected thenBranch elseBranch thenSpan elseSpan) fun t =>
      body.Regular error known → (∀ s ∈ expected, s.Fits (body.place error known)) →
      thenBranch.type.Fits (body.place error known) → elseBranch.type.Fits (body.place error known) →
      t.Fits (body.place error known) ∧ (body.program.Strict error →
        (thenBranch.diverges = false → body.program.Assignable t thenBranch.type) ∧
        (elseBranch.diverges = false → body.program.Assignable t elseBranch.type)) := by
  unfold joinBranches
  split
  · rename_i first second
    refine .pure fun _ wanted _ _ => ⟨?_, fun _ => ⟨fun h => ?_, fun h => ?_⟩⟩
    · cases expected with
      | none => trivial
      | some t => exact wanted t rfl
    · rw [first] at h
      cases h
    · rw [second] at h
      cases h
  · rename_i first _
    refine .pure fun _ _ _ fits => ⟨fits, fun _ => ⟨fun h => ?_, fun _ => .refl _⟩⟩
    rw [first] at h
    cases h
  · rename_i _ second
    refine .pure fun _ _ fits _ => ⟨fits, fun _ => ⟨fun _ => .refl _, fun h => ?_⟩⟩
    rw [second] at h
    cases h
  · cases expected with
    | none =>
      refine (Yields.of_ensures (body.expectAssignable_ensures _ _ _ _)).bind fun _ => .pure ?_
      intro stored h _ left right
      exact ⟨left, fun strict => ⟨fun _ => .refl _, fun _ => h.assignable strict left right stored⟩⟩
    | some t =>
      refine (Yields.of_ensures (body.expectAssignable_ensures _ _ _ _)).bind fun _ => ?_
      refine (Yields.of_ensures (body.expectAssignable_ensures _ _ _ _)).bind fun _ => .pure ?_
      intro second first h wanted left right
      exact ⟨wanted t rfl, fun strict => ⟨fun _ => h.assignable strict (wanted t rfl) left first,
        fun _ => h.assignable strict (wanted t rfl) right second⟩⟩

theorem bindingType_yields (name : String) (span : Span) (written : Option (Option Ty)) (initializer : Option TypedExpr) :
    Yields error (body.bindingType name span written initializer) fun t => body.Regular error known →
      (∀ found ∈ written, (found.getD .error).Fits (body.place error known)) →
      (∀ value ∈ initializer, value.type.Fits (body.place error known)) → t.Fits (body.place error known) ∧
        (body.program.Strict error → ∀ value ∈ initializer, body.program.Assignable t value.type) := by
  unfold bindingType
  split
  · rename_i t value
    refine (Yields.of_ensures (body.expectAssignable_ensures _ _ _ _)).bind fun _ => .pure fun stored h meant values => ?_
    refine ⟨meant _ rfl, fun strict => ?_⟩
    rintro _ ⟨⟩
    exact h.assignable strict (meant _ rfl) (values _ rfl) stored
  · exact .pure fun _ meant _ => ⟨meant _ rfl, fun _ _ mem => by cases mem⟩
  · exact .pure fun _ meant _ => ⟨meant _ rfl, fun strict => absurd (meant _ rfl) strict.clean⟩
  · refine .pure fun _ _ values => ⟨values _ rfl, fun _ => ?_⟩
    rintro _ ⟨⟩
    exact .refl _
  · exact body.refused_yields fun on _ _ _ => ⟨on, fun strict => absurd on strict.clean⟩

end Nodes

/-- Whether all types in statements fit, and the statements obey the typing rules. -/
structure AcceptsStatements (body : BodyContext) (error : Prop) (known : String → Prop) (env : Env)
    (statements : List TypedStatement) : Prop where
  fits : Ty.FitAll (body.place error known) (TypedStatement.storedInEach statements)
  typed : body.program.Strict error → StatementsTyping body.program body.result env statements

structure AcceptsBlock (body : BodyContext) (error : Prop) (known : String → Prop) (env : Env) (block : TypedBlock) :
    Prop where
  fits : Ty.FitAll (body.place error known) block.stored
  typed : body.program.Strict error → BlockTyping body.program body.result env block

/-- Whether all that a call is checked against fits, and it has a slot for every type parameter of what is called. -/
structure Opened (body : BodyContext) (error : Prop) (known : String → Prop) (call : OpenCall) : Prop where
  within : ∃ inside, call.Within inside (body.place error known)
  sound : call.unifier.Sound (body.Open error known)
  typeParameters : ∀ t ∈ call.shape.typeParameters, t.IsParameter (body.place error fun _ => True)

/-- Whether a call has as many arguments as it may have, and they will do. -/
structure Ready (body : BodyContext) (env : Env) (callee : Callee) (call : OpenCall) (arguments : List TypedExpr) :
    Prop where
  callee : CalleeTyping body.program body.result env callee call.shape
  enough : call.shape.required ≤ arguments.length
  most : arguments.length ≤ call.shape.params.length
  admits : ∀ pair ∈ call.params.zip arguments, call.Admits body.program pair.1 pair.2.type

variable {body : BodyContext} {error : Prop} {known : String → Prop} {env : Env}

theorem AcceptsStatements.block {statements : List TypedStatement}
    (h : body.AcceptsStatements error known env statements) (mode : Mode) :
    body.AcceptsBlock error known env (.ofStatements mode statements) := by
  refine ⟨TypedBlock.ofStatements_fit mode h.fits, fun strict => ?_⟩
  unfold TypedBlock.ofStatements
  dsimp only
  split
  · exact .value (h.typed strict) ‹_›
  · exact .nothing (h.typed strict)

theorem AcceptsBlock.type {block : TypedBlock} (h : body.AcceptsBlock error known env block) :
    block.type.Fits (body.place error known) :=
  block.type_fits h.fits

theorem Opened.grows {call later : OpenCall} (h : body.Opened error known call)
    (grows : call.Grows (body.Open error known) later) : body.Opened error known later :=
  ⟨h.within.imp fun _ within => within.grows grows, (grows.unifier h.sound).1, grows.shape ▸ h.typeParameters⟩

theorem Ready.grows {callee : Callee} {call later : OpenCall} {arguments : List TypedExpr}
    (h : body.Ready env callee call arguments) (sound : call.unifier.Sound (body.Open error known))
    (grows : call.Grows (body.Open error known) later) : body.Ready env callee later arguments where
  callee := grows.shape ▸ h.callee
  enough := grows.shape ▸ h.enough
  most := grows.shape ▸ h.most
  admits pair mem := by
    rw [OpenCall.params, grows.shape, grows.slots] at mem
    exact (h.admits pair mem).grows sound grows

theorem openTarget_yields (body : BodyContext) (error : Prop) (known : String → Prop) (env : Env) (target : CallTarget)
    (typeArguments : List TypeExpr) (count : Nat) (span : Span) :
    Yields error (body.openTarget target typeArguments count span) fun call => body.Regular error known →
      body.AcceptsTarget error known env target → (call = none → error) ∧ ∀ start ∈ call, body.Opened error known start ∧
        target.shape = some start.shape ∧
        (error ∨ start.shape.required ≤ count ∧ count ≤ start.shape.params.length) := by
  unfold openTarget
  split
  · rename_i shape isShape
    have lowers := fun type (_ : type ∈ typeArguments) => body.lowers_open error known type
    refine (openCall_yields (Ty.hereditary_fits _) shape lowers count span).bind fun call => .pure fun opened h target => ?_
    refine ⟨nofun, ?_⟩
    rintro _ ⟨⟩
    have regular := target.shape shape isShape
    obtain ⟨within, sound, rfl, counted⟩ := opened h _ _ regular.within
    exact ⟨⟨⟨_, within⟩, sound, regular.typeParameters⟩, isShape, counted⟩
  · exact .pure fun _ target => ⟨fun _ => target.found ‹_›, fun _ mem => by cases mem⟩

/-- A call of which the type arguments are found obeys its rule, if its arguments will do. -/
theorem Ready.typed {callee : Callee} {call : OpenCall} {arguments : List TypedExpr} {found : List Ty}
    (h : body.Ready env callee call arguments) (regular : body.Regular error known)
    (strict : body.program.Strict error) (opened : body.Opened error known call)
    (each : ∀ argument ∈ arguments, body.Accepts error known env argument)
    (finds : call.Finds (Ty.namesOf call.shape.typeParameters) found) (span : Span) :
    ExprTyping body.program body.result env ⟨.call callee found arguments,
      .ofReturns (call.shape.returns.map (Ty.instantiate (call.shape.instantiation found))), span⟩ := by
  obtain ⟨inside, within⟩ := opened.within
  have count := finds.count.symm.trans (Ty.length_namesOf opened.typeParameters)
  refine .call h.callee count h.enough h.most (fun a mem => (each a mem).typed strict) fun pair mem => ?_
  obtain ⟨left, right⟩ := of_mem_zip mem
  have fits := within.instantiation_fits finds opened.sound.holds (within.shape.params _ left)
  refine regular.assignable strict fits (each _ right).type
    (.inr (within.stored_of_admits finds left (h.admits (_, pair.2) ?_)))
  rw [OpenCall.params, zip_map_left]
  exact mem_map_of_mem mem

theorem closeTarget_yields (body : BodyContext) (error : Prop) (known : String → Prop) (env : Env) (callee : Callee)
    (call : Option OpenCall) (arguments : List TypedExpr) (span : Span) :
    Yields error (body.closeTarget callee call arguments span) fun e => body.Regular error known →
      Ty.FitAll (body.place error known) callee.stored →
      (∀ argument ∈ arguments, body.Accepts error known env argument) → (call = none → error) →
      (∀ last ∈ call, body.Opened error known last ∧
        (body.program.Strict error → body.Ready env callee last arguments)) → body.Accepts error known env e := by
  have stored : ∀ {found : List Ty}, Ty.FitAll (body.place error known) callee.stored →
      (∀ t ∈ found, t.Fits (body.place error known)) →
      (∀ argument ∈ arguments, body.Accepts error known env argument) →
      Ty.FitAll (body.place error known) (TypedExprKind.stored (.call callee found arguments)) :=
    fun fits found each => Ty.fitAll_append.2 ⟨Ty.fitAll_append.2 ⟨fits, Ty.fitAll_iff.2 found⟩,
      TypedExpr.fitAll_storedInEach.2 fun argument mem => (each argument mem).fits⟩
  unfold closeTarget
  split
  · rename_i call
    have admits : error → (body.place error known).error := id
    refine (closeCall_yields admits Regular.binds call span).bind fun answer => .pure fun closes h fits each _ last => ?_
    obtain ⟨opened, ready⟩ := last call rfl
    obtain ⟨inside, within⟩ := opened.within
    obtain ⟨found, result, closed⟩ := closes h inside within opened.sound fun t mem => (opened.typeParameters t mem).named
    refine ⟨⟨result, stored fits found each⟩, fun strict => ?_⟩
    obtain ⟨later, grows, finds, same, _⟩ := closed.resolve_left strict.clean
    rw [same]
    exact ((ready strict).grows opened.sound grows).typed h strict (opened.grows grows) each finds span
  · refine .pure fun h fits each missing _ => .of_error (missing rfl) ⟨missing rfl, stored fits ?_ each⟩
    exact fun _ mem => by cases mem

end BodyContext

end SemanticChecker
