import SemanticChecker.Proofs.CallTarget
import SemanticChecker.Proofs.Soundness.Nodes

/-! The check of bodies. By induction over the source: an expression is accepted wherever the names in scope and the type
expected of it fit, if the error type is admitted or nothing is reported. -/
namespace SemanticChecker

open List

def Mode.Fits (place : Place) (mode : Mode) : Prop :=
  ∀ t ∈ mode.expected, t.Fits place

theorem Mode.fits_primitive (place : Place) (kind : Primitive) : (Mode.value (some (.primitive kind))).Fits place := by
  rintro t ⟨⟩
  trivial

section Expected

variable {place : Place} {expected : Option Ty} (h : ∀ t ∈ expected, t.Fits place)

include h

theorem expectedSlots_fits (count : Nat) : ∀ t ∈ expectedSlots expected count, t.Fits place := by
  unfold expectedSlots
  split
  · rename_i slots
    split
    · exact Ty.fitAll_iff.1 (h (.tuple slots) rfl)
    · exact fun _ ht => by cases ht
  · exact fun _ ht => by cases ht

theorem expectedElement_fits : ∀ t ∈ expectedElement expected, t.Fits place := by
  unfold expectedElement
  split
  · rename_i element
    rintro t ⟨⟩
    exact h (.list element) rfl
  · exact fun _ ht => by cases ht

theorem expectedEntry_fits : (∀ t ∈ (expectedEntry expected).1, t.Fits place) ∧
    ∀ t ∈ (expectedEntry expected).2, t.Fits place := by
  unfold expectedEntry
  split
  · rename_i key value
    obtain ⟨left, right⟩ := h (.dict key value) rfl
    constructor
    · rintro t ⟨⟩
      exact left
    · rintro t ⟨⟩
      exact right
  · exact ⟨fun _ ht => (by cases ht), fun _ ht => by cases ht⟩

theorem expectedFirst_fits {found : Ty} (fits : found.Fits place) : ∀ t ∈ some (expected.getD found), t.Fits place := by
  rintro t ⟨⟩
  cases expected with
  | none => exact fits
  | some t => exact h t rfl

theorem expectedBranch_fits {block : TypedBlock} (fits : block.type.Fits place) :
    (Mode.value (expected.or (if block.diverges then none else some block.type))).Fits place := by
  intro t ht
  rcases Option.or_eq_some_iff.1 ht with wanted | ⟨_, found⟩
  · exact h t wanted
  · split at found
    · cases found
    · cases found
      exact fits

end Expected

namespace BodyContext

variable {body : BodyContext} {error : Prop} {known : String → Prop} {env : Env}

theorem Accepts.mode {e : TypedExpr} (h : body.Accepts error known env e) :
    (Mode.value (some e.type)).Fits (body.place error known) := by
  rintro t ⟨⟩
  exact h.type

theorem Accepts.tuple {items : List TypedExpr} (each : ∀ item ∈ items, body.Accepts error known env item)
    (span : Span) : body.Accepts error known env ⟨.tuple items, .tuple (items.map TypedExpr.type), span⟩ where
  fits := ⟨Ty.fitAll_iff.2 (forall_mem_map.2 fun item mem => (each item mem).type),
    TypedExpr.fitAll_storedInEach.2 fun item mem => (each item mem).fits⟩
  typed strict := .tuple fun item mem => (each item mem).typed strict

/-- The elements of a list that are accepted, for an element type that may still be open. -/
structure AcceptsElements (body : BodyContext) (error : Prop) (known : String → Prop) (env : Env)
    (items : List TypedExpr) (element : Option Ty) : Prop where
  each : ∀ item ∈ items, body.Accepts error known env item
  fits : ∀ t ∈ element, t.Fits (body.place error known)
  stored : body.program.Strict error → ∀ t ∈ element, ∀ item ∈ items, body.program.Assignable t item.type

theorem AcceptsElements.nil {element : Option Ty} (fits : ∀ t ∈ element, t.Fits (body.place error known)) :
    body.AcceptsElements error known env [] element :=
  ⟨fun _ mem => (by cases mem), fits, fun _ _ _ _ mem => by cases mem⟩

variable {items : List TypedExpr} {t : Ty} {condition : TypedExpr} {thenBranch : TypedBlock} {source : Statement}
  {rest : Block} {more : List TypedStatement}

/-- The first element decides the type of elements where none is expected. -/
theorem AcceptsElements.cons {first : TypedExpr} {element final : Option Ty} (h : body.Regular error known)
    (accepts : body.Accepts error known env first) (fits : ∀ t ∈ element, t.Fits (body.place error known))
    (stored : error ∨ ∀ t ∈ element, body.program.isAssignable t first.type = true)
    (rest : body.AcceptsElements error known env items final)
    (kept : ∀ t ∈ some (element.getD first.type), final = some t) :
    body.AcceptsElements error known env (first :: items) final ∧ ∀ t ∈ element, final = some t := by
  have decided : final = some (element.getD first.type) := kept _ rfl
  subst decided
  refine ⟨⟨forall_mem_cons.2 ⟨accepts, rest.each⟩, rest.fits, fun strict => ?_⟩, ?_⟩
  · rintro t ⟨⟩
    refine forall_mem_cons.2 ⟨?_, rest.stored strict _ rfl⟩
    cases element with
    | none => exact .refl _
    | some t => exact h.assignable strict (fits t rfl) accepts.type (stored.imp_right fun stored => stored t rfl)
  · rintro t ⟨⟩
    rfl

theorem AcceptsElements.storedInEach {element : Option Ty} (h : body.AcceptsElements error known env items element) :
    Ty.FitAll (body.place error known) (TypedExpr.storedInEach items) :=
  TypedExpr.fitAll_storedInEach.2 fun item mem => (h.each item mem).fits

theorem AcceptsElements.list (h : body.AcceptsElements error known env items (some t)) (span : Span) :
    body.Accepts error known env ⟨.list items, .list t, span⟩ where
  fits := ⟨h.fits t rfl, h.storedInEach⟩
  typed strict := .list (fun item mem => (h.each item mem).typed strict) (h.stored strict t rfl)

section Entries

variable {entries : List (TypedExpr × TypedExpr)} {key value : Option Ty}
  (keys : body.AcceptsElements error known env (entries.map Prod.fst) key)
  (values : body.AcceptsElements error known env (entries.map Prod.snd) value)
include keys values

theorem AcceptsElements.storedInEntries :
    Ty.FitAll (body.place error known) (TypedExpr.storedInEntries entries) :=
  TypedExpr.fitAll_storedInEntries.2 fun _ mem =>
    ⟨(keys.each _ (mem_map_of_mem mem)).fits, (values.each _ (mem_map_of_mem mem)).fits⟩

theorem Accepts.dict {keyType valueType : Ty} (isKey : key = some keyType) (isValue : value = some valueType)
    (span : Span) : body.Accepts error known env ⟨.dict entries, .dict keyType valueType, span⟩ where
  fits := ⟨⟨keys.fits _ isKey, values.fits _ isValue⟩, keys.storedInEntries values⟩
  typed strict := .dict
    (fun _ mem => (keys.each _ (mem_map_of_mem mem)).typed strict)
    (fun _ mem => (values.each _ (mem_map_of_mem mem)).typed strict)
    (fun _ mem => keys.stored strict _ isKey _ (mem_map_of_mem mem))
    (fun _ mem => values.stored strict _ isValue _ (mem_map_of_mem mem))

end Entries

theorem Accepts.assign {target value : TypedExpr} (h : body.Regular error known)
    (place : body.Accepts error known env target) (isPlace : error ∨ target.kind.IsPlace)
    (stored : body.Accepts error known env value)
    (done : error ∨ body.program.isAssignable target.type value.type = true) (span : Span) :
    body.Accepts error known env ⟨.assign target value, .unit, span⟩ where
  fits := ⟨trivial, Ty.fitAll_append.2 ⟨place.fits, stored.fits⟩⟩
  typed strict := .assign (place.typed strict) (isPlace.resolve_left strict.clean) (stored.typed strict)
    (h.assignable strict place.type stored.type done)

/-- The arguments of a call that are accepted, and the call, if there is one, with what they filled. -/
structure Passes (body : BodyContext) (error : Prop) (known : String → Prop) (env : Env) (call : Option OpenCall)
    (params : List Ty) (arguments : List TypedExpr) (last : Option OpenCall) : Prop where
  each : ∀ argument ∈ arguments, body.Accepts error known env argument
  none : call = none → last = none
  some : ∀ start ∈ call, ∃ later, last = some later ∧ start.Grows (body.Open error known) later ∧
    (error ∨ ∀ pair ∈ params.zip arguments, later.Admits body.program pair.1 pair.2.type)

/-- What is said of checked arguments: there are as many as are given, and they are passed. -/
def ArgumentsPass (body : BodyContext) (error : Prop) (known : String → Prop) (env : Env) (call : Option OpenCall)
    (params : List Ty) (count : Nat) (answer : List TypedExpr × Option OpenCall) : Prop :=
  body.Knows error known env → (∀ start ∈ call, start.unifier.Sound (body.Open error known)) →
    (∀ t ∈ params, body.Open error known t) →
      answer.1.length = count ∧ body.Passes error known env call params answer.1 answer.2

theorem checkCall_yields {arguments : List Expr} (passes : ∀ call params,
      Yields error (checkArguments body env call 1 params arguments)
        (body.ArgumentsPass error known env call params arguments.length))
    (target : CallTarget) (typeArguments : List TypeExpr) (span : Span) :
    Yields error (body.checkCall env typeArguments arguments span target) fun e => body.Knows error known env →
      body.AcceptsTarget error known env target → body.Accepts error known env e := by
  refine (body.openTarget_yields error known env target typeArguments arguments.length span).bind fun call => ?_
  refine (passes call (openParams call)).bind fun answer => ?_
  dsimp only
  refine (body.closeTarget_yields error known env target.callee answer.2 answer.1 span).mono ?_
  intro e closes passed opened h callee
  obtain ⟨missing, opened⟩ := opened h.regular callee
  have params : ∀ t ∈ openParams call, body.Open error known t := by
    cases call with
    | none => exact fun _ mem => by cases mem
    | some start =>
      obtain ⟨_, within⟩ := (opened start rfl).1.within
      exact within.params_fit
  obtain ⟨count, passed⟩ := passed h (fun start mem => (opened start mem).1.sound) params
  cases call with
  | none =>
    refine closes h.regular callee.fits passed.each (fun _ => missing rfl) fun last mem => ?_
    cases (passed.none rfl).symm.trans mem
  | some start =>
    obtain ⟨later, isLast, grows, admits⟩ := passed.some start rfl
    obtain ⟨start_opened, isShape, counted⟩ := opened start rfl
    refine closes h.regular callee.fits passed.each (fun isNone => by cases isLast.symm.trans isNone) fun last mem => ?_
    cases isLast.symm.trans mem
    refine ⟨start_opened.grows grows, fun strict => ⟨?_, ?_, ?_, ?_⟩⟩
    · exact callee.typed strict _ (grows.shape ▸ isShape)
    · rw [grows.shape, count]
      exact (counted.resolve_left strict.clean).1
    · rw [grows.shape, count]
      exact (counted.resolve_left strict.clean).2
    · rw [OpenCall.params, grows.shape, grows.slots]
      exact admits.resolve_left strict.clean

section Cond

variable (h : body.Regular error known) (test : body.Accepts error known env condition)
  (isBool : error ∨ body.program.isAssignable (.primitive .bool) condition.type = true)
  (first : body.AcceptsBlock error known env thenBranch)
include h test isBool first

theorem Accepts.condOnly (span : Span) :
    body.Accepts error known env ⟨.cond condition thenBranch none, .unit, span⟩ where
  fits := ⟨trivial, Ty.fitAll_append.2 ⟨Ty.fitAll_append.2 ⟨test.fits, first.fits⟩, trivial⟩⟩
  typed strict := .condOnly (test.typed strict) (test.eq_primitive h strict isBool) (first.typed strict)

theorem Accepts.cond {elseBranch : TypedBlock} (second : body.AcceptsBlock error known env elseBranch)
    (fits : t.Fits (body.place error known))
    (rule : body.program.Strict error → (thenBranch.diverges = false → body.program.Assignable t thenBranch.type) ∧
      (elseBranch.diverges = false → body.program.Assignable t elseBranch.type)) (span : Span) :
    body.Accepts error known env ⟨.cond condition thenBranch (some elseBranch), t, span⟩ where
  fits := ⟨fits, Ty.fitAll_append.2 ⟨Ty.fitAll_append.2 ⟨test.fits, first.fits⟩, second.fits⟩⟩
  typed strict := .cond (test.typed strict) (test.eq_primitive h strict isBool) (first.typed strict)
    (second.typed strict) (rule strict).1 (rule strict).2

end Cond

theorem enumNamed?_inside (h : body.Regular error known) {object : Expr} {id : EnumId}
    (found : body.enumNamed? env object = some id) : id.index < body.program.table.enums.length := by
  obtain ⟨name, _, found⟩ := Option.bind_eq_some_iff.1 found
  split at found
  · rename_i symbol
    cases found
    exact symbol?_inside h symbol
  · cases found

/-- A statement that is accepted: it is an expression if the source is one, and statements that are accepted in
the scope that it leaves may follow it. -/
structure PassesStatement (body : BodyContext) (error : Prop) (known : String → Prop) (env : Env) (source : Statement)
    (answer : TypedStatement × Env) : Prop where
  form : ∀ value, source = .expression value → ∃ typed, answer.1 = .expression typed
  scope : body.Knows error known answer.2
  cons : ∀ rest, body.AcceptsStatements error known answer.2 rest →
    body.AcceptsStatements error known env (answer.1 :: rest)

theorem getLast_form {first : TypedStatement} (count : more.length = rest.length)
    (form : ∀ value, source = .expression value → ∃ typed, first = .expression typed)
    (others : ∀ value, rest.getLast? = some (.expression value) → ∃ found, more.getLast? = some (.expression found))
    (value : Expr) (isLast : (source :: rest).getLast? = some (.expression value)) :
    ∃ found, (first :: more).getLast? = some (.expression found) := by
  cases rest with
  | nil =>
    obtain rfl := length_eq_zero_iff.1 count
    exact (form value (Option.some.inj isLast)).imp fun _ => congrArg some
  | cons next rest =>
    obtain ⟨found, isLast⟩ := others value (by rwa [getLast?_cons_cons] at isLast)
    rw [getLast?_cons, isLast]
    exact ⟨found, rfl⟩

/-- Statements that are accepted: the last one is an expression if the last one in the source is. -/
structure PassesStatements (body : BodyContext) (error : Prop) (known : String → Prop) (env : Env) (source : Block)
    (typed : List TypedStatement) : Prop where
  count : typed.length = source.length
  accepts : body.AcceptsStatements error known env typed
  last : ∀ value, source.getLast? = some (.expression value) → ∃ found, typed.getLast? = some (.expression found)

theorem PassesStatement.cons' {answer : TypedStatement × Env}
    (first : body.PassesStatement error known env source answer)
    (others : body.PassesStatements error known answer.2 rest more) :
    body.PassesStatements error known env (source :: rest) (answer.1 :: more) where
  count := congrArg Nat.succ others.count
  accepts := first.cons more others.accepts
  last := getLast_form others.count first.form others.last

theorem callTarget_yields {callee : Expr} (checks : Yields error (checkExpr body env (.value none) callee.subject)
      fun typed => body.Knows error known env → (Mode.value none).Fits (body.place error known) →
        body.Accepts error known env typed) (span : Span) :
    Yields error (body.callTarget env span callee) fun target =>
      body.Knows error known env → body.AcceptsTarget error known env target := by
  induction callee using callTarget_cases with
  | construct _ _ id _ found =>
    refine (body.constructTarget_yields error known env id span).mono fun _ reached h => ?_
    exact reached h (symbol?_inside h.regular found)
  | function _ _ id _ found => exact .pure fun h => functionTarget_accepted h (symbol?_inside h.regular found)
  | value callee same =>
    rw [same] at checks
    refine checks.bind fun value => (body.valueTarget_yields error known env value callee.span).mono ?_
    exact fun _ reached first h => reached (first h fun _ mem => by cases mem)
  | method _ name calleeSpan =>
    refine checks.bind fun receiver => (body.methodTarget_yields error known env receiver name calleeSpan span).mono ?_
    exact fun _ reached first h => reached h (first h fun _ mem => by cases mem)
  | variant _ id name calleeSpan found =>
    refine (body.checkVariant_yields error known env id name calleeSpan).bind fun callee => ?_
    refine (body.valueTarget_yields error known env callee calleeSpan).mono fun _ reached first h => ?_
    exact reached (first h.regular (enumNamed?_inside h.regular found))

section Checks

variable (body error known)

mutual

theorem checkExpr_yields : ∀ (e : Expr) (env : Env) (mode : Mode),
    Yields error (checkExpr body env mode e) fun typed => body.Knows error known env →
      mode.Fits (body.place error known) → body.Accepts error known env typed
  | ⟨.literal value, span⟩, env, mode => by
    rw [checkExpr]
    exact (body.checkLiteral_yields error known env mode.expected span value).bind fun t => .pure fun accepts _ => accepts
  | ⟨.tuple items, span⟩, env, mode => by
    rw [checkExpr]
    refine (checkEach_yields items env _).bind fun typed => .pure fun each h fits => ?_
    exact .tuple (each h (expectedSlots_fits fits _)) span
  | ⟨.list items, span⟩, env, mode => by
    rw [checkExpr]
    refine (checkElements_yields items env _).bind fun answer => ?_
    dsimp only
    split
    · rename_i t isSome
      exact .pure fun each h fits => (isSome ▸ (each h (expectedElement_fits fits)).1).list span
    · exact body.refused_yields fun on each h fits =>
        .of_error on ⟨on, (each h (expectedElement_fits fits)).1.storedInEach⟩
  | ⟨.dict entries, span⟩, env, mode => by
    rw [checkExpr]
    refine (checkEntries_yields entries env _ _).bind fun answer => ?_
    dsimp only
    split
    · rename_i key value isKey isValue
      refine .pure fun each h fits => ?_
      obtain ⟨left, right⟩ := expectedEntry_fits fits
      obtain ⟨⟨keys, _⟩, values, _⟩ := each h left right
      exact .dict keys values isKey isValue span
    · refine body.refused_yields fun on each h fits => ?_
      obtain ⟨left, right⟩ := expectedEntry_fits fits
      obtain ⟨⟨keys, _⟩, values, _⟩ := each h left right
      exact .of_error on ⟨on, keys.storedInEntries values⟩
  | ⟨.ident name, span⟩, env, mode => by
    rw [checkExpr]
    exact (body.checkName_yields error known env name span).mono fun _ accepts h _ => accepts h
  | ⟨.assign target value, span⟩, env, mode => by
    rw [checkExpr]
    refine (checkExpr_yields target env (.value none)).bind fun place => ?_
    refine (Yields.of_ensures (body.assignmentRole_ensures place target.span)).bind fun role => ?_
    refine (checkExpr_yields value env (.value (some place.type))).bind fun stored => ?_
    dsimp only
    split
    · refine (Yields.of_ensures (body.expectAssignable_ensures _ place.type stored.type value.span)).bind fun _ => .pure ?_
      intro done second role first h _
      have first := first h fun _ mem => by cases mem
      exact .assign h.regular first (role.imp_right And.right) (second h first.mode) done span
    · refine .pure fun second role first h _ => ?_
      have on : error := role.resolve_right fun ⟨⟨_, isSome⟩, _⟩ => by cases isSome
      have first := first h fun _ mem => by cases mem
      exact .assign h.regular first (.inl on) (second h first.mode) (.inl on) span
  | ⟨.call ⟨kind, calleeSpan⟩ typeArguments arguments, span⟩, env, mode => by
    have value : Yields error (checkExpr body env (.value none) (Expr.subject ⟨kind, calleeSpan⟩)) fun typed =>
        body.Knows error known env → (Mode.value none).Fits (body.place error known) →
          body.Accepts error known env typed := by
      cases kind with
      | _ => exact checkExpr_yields _ env _
    have passes := fun call params => checkArguments_yields arguments env call 1 params
    rw [checkExpr_call]
    refine (callTarget_yields value span).bind fun target => (checkCall_yields passes target typeArguments span).mono ?_
    exact fun _ accepts reached h _ => accepts h (reached h)
  | ⟨.field object name, span⟩, env, mode => by
    rw [checkExpr]
    split
    · rename_i id found
      exact (body.checkVariant_yields error known env id name span).mono
        fun _ accepts h _ => accepts h.regular (enumNamed?_inside h.regular found)
    · refine (checkExpr_yields object env (.value none)).bind fun object => ?_
      refine (body.checkMember_yields error known env object name span).mono fun _ accepts first h _ => ?_
      exact accepts h.regular (first h fun _ mem => by cases mem)
  | ⟨.binary operator left right, span⟩, env, mode => by
    rw [checkExpr]
    dsimp only
    split
    · rename_i isLogical
      refine (checkExpr_yields left env _).bind fun leftValue => ?_
      refine (checkExpr_yields right env _).bind fun rightValue => ?_
      refine (Yields.of_ensures (body.expectAssignable_ensures _ _ leftValue.type _)).bind fun _ => ?_
      refine (Yields.of_ensures (body.expectAssignable_ensures _ _ rightValue.type _)).bind fun _ => .pure ?_
      intro isRight isLeft second first h _
      have first := first h (Mode.fits_primitive _ _)
      have second := second h (Mode.fits_primitive _ _)
      exact first.binary second trivial fun strict l r => .logical isLogical l r
        (first.eq_primitive h.regular strict isLeft) (second.eq_primitive h.regular strict isRight)
    · rename_i notLogical
      have plain := Bool.eq_false_iff.2 notLogical
      split
      · refine (checkExpr_yields right env _).bind fun rightValue => ?_
        refine (checkExpr_yields left env _).bind fun leftValue => ?_
        refine (body.checkOperator_yields error known env plain leftValue rightValue span).bind fun t => .pure ?_
        intro accepts first second h _
        have second := second h fun _ mem => by cases mem
        exact accepts h.regular (first h second.mode) second
      · refine (checkExpr_yields left env _).bind fun leftValue => ?_
        refine (checkExpr_yields right env _).bind fun rightValue => ?_
        refine (body.checkOperator_yields error known env plain leftValue rightValue span).bind fun t => .pure ?_
        intro accepts second first h _
        have first := first h fun _ mem => by cases mem
        exact accepts h.regular first (second h first.mode)
  | ⟨.cond condition thenBranch elseBranch, span⟩, env, mode => by
    rw [checkExpr]
    dsimp only
    refine (checkExpr_yields condition env _).bind fun test => ?_
    refine (Yields.of_ensures (body.expectAssignable_ensures _ _ test.type _)).bind fun _ => ?_
    refine (checkStatements_yields thenBranch env mode).bind fun statements => ?_
    cases elseBranch with
    | none =>
      cases mode with
      | statement =>
        refine .pure fun first isBool test h fits => ?_
        exact .condOnly h.regular (test h (Mode.fits_primitive _ _)) isBool ((first h fits).accepts.block _) span
      | value expected =>
        refine body.refused_yields fun on first _ test h fits => .of_error on ⟨on, ?_⟩
        have first := (first h fits).accepts.block (.value expected)
        exact Ty.fitAll_append.2 ⟨Ty.fitAll_append.2 ⟨(test h (Mode.fits_primitive _ _)).fits, first.fits⟩, trivial⟩
    | some elseBranch =>
      cases mode with
      | statement =>
        refine (checkStatements_yields elseBranch env .statement).bind fun others => .pure ?_
        intro second first isBool test h fits
        exact Accepts.cond (t := .unit) h.regular (test h (Mode.fits_primitive _ _)) isBool
          ((first h fits).accepts.block _) ((second h fits).accepts.block _) trivial
          (fun _ => ⟨fun _ => .refl _, fun _ => .refl _⟩) span
      | value expected =>
        refine (checkStatements_yields elseBranch env _).bind fun others => ?_
        refine (body.joinBranches_yields error known expected _ _ _ _).bind fun t => .pure ?_
        intro joins second first isBool test h fits
        have thenBlock := (first h fits).accepts.block (.value expected)
        have elseBlock := (second h (expectedBranch_fits fits thenBlock.type)).accepts.block
        obtain ⟨joined, rule⟩ := joins h.regular fits thenBlock.type (elseBlock _).type
        exact .cond h.regular (test h (Mode.fits_primitive _ _)) isBool thenBlock (elseBlock _) joined rule span

theorem checkEach_yields : ∀ (items : List Expr) (env : Env)
    (slots : List Ty), Yields error (checkEach body env slots items) fun typed => body.Knows error known env →
      (∀ t ∈ slots, t.Fits (body.place error known)) → ∀ item ∈ typed, body.Accepts error known env item
  | [], env, slots => by
    rw [checkEach]
    exact .pure fun _ _ _ mem => by cases mem
  | item :: rest, env, slots => by
    rw [checkEach]
    refine (checkExpr_yields item env _).bind fun first => ?_
    refine (checkEach_yields rest env _).bind fun more => .pure fun others accepts h fits => ?_
    refine forall_mem_cons.2 ⟨accepts h fun t mem => ?_, others h fun t mem => ?_⟩
    · exact fits t (mem_of_head? mem)
    · exact fits t (mem_of_mem_tail mem)

theorem checkElements_yields : ∀ (items : List Expr) (env : Env)
    (element : Option Ty), Yields error (checkElements body env element items) fun answer => body.Knows error known env →
      (∀ t ∈ element, t.Fits (body.place error known)) →
      body.AcceptsElements error known env answer.1 answer.2 ∧ ∀ t ∈ element, answer.2 = some t
  | [], env, element => by
    rw [checkElements]
    exact .pure fun _ fits => ⟨.nil fits, fun _ mem => mem⟩
  | item :: rest, env, element => by
    rw [checkElements]
    refine (checkExpr_yields item env _).bind fun first => ?_
    refine (Yields.of_ensures (body.expectStored_ensures .listElement element first.type item.span)).bind fun _ => ?_
    refine (checkElements_yields rest env _).bind fun answer => .pure ?_
    intro more stored accepts h fits
    have first := accepts h fits
    obtain ⟨others, kept⟩ := more h (expectedFirst_fits fits first.type)
    exact others.cons h.regular first fits stored kept

theorem checkEntries_yields : ∀ (entries : List (Expr × Expr)) (env : Env)
    (key value : Option Ty), Yields error (checkEntries body env key value entries) fun answer =>
      body.Knows error known env →
      (∀ t ∈ key, t.Fits (body.place error known)) → (∀ t ∈ value, t.Fits (body.place error known)) →
      (body.AcceptsElements error known env (answer.1.map Prod.fst) answer.2.1 ∧ ∀ t ∈ key, answer.2.1 = some t) ∧
        body.AcceptsElements error known env (answer.1.map Prod.snd) answer.2.2 ∧ ∀ t ∈ value, answer.2.2 = some t
  | [], env, key, value => by
    rw [checkEntries]
    exact .pure fun _ keyFits valueFits => ⟨⟨.nil keyFits, fun _ mem => mem⟩, .nil valueFits, fun _ mem => mem⟩
  | (keyExpr, valueExpr) :: rest, env, key, value => by
    rw [checkEntries]
    refine (checkExpr_yields keyExpr env _).bind fun typedKey => ?_
    refine (checkExpr_yields valueExpr env _).bind fun typedValue => ?_
    refine (Yields.of_ensures (body.expectStored_ensures .dictKey key typedKey.type keyExpr.span)).bind fun _ => ?_
    refine (Yields.of_ensures (body.expectStored_ensures .dictValue value typedValue.type valueExpr.span)).bind fun _ => ?_
    refine (checkEntries_yields rest env _ _).bind fun answer => .pure ?_
    intro more storedValue storedKey acceptsValue acceptsKey h keyFits valueFits
    have firstKey := acceptsKey h keyFits
    have firstValue := acceptsValue h valueFits
    obtain ⟨⟨keys, keptKey⟩, values, keptValue⟩ :=
      more h (expectedFirst_fits keyFits firstKey.type) (expectedFirst_fits valueFits firstValue.type)
    exact ⟨keys.cons h.regular firstKey keyFits storedKey keptKey,
      values.cons h.regular firstValue valueFits storedValue keptValue⟩

theorem checkArguments_yields : ∀ (arguments : List Expr) (env : Env)
    (call : Option OpenCall) (position : Nat) (params : List Ty),
    Yields error (checkArguments body env call position params arguments)
      (body.ArgumentsPass error known env call params arguments.length)
  | [], env, call, position, params => by
    rw [checkArguments]
    refine .pure fun _ _ _ => ⟨rfl, fun _ mem => (by cases mem), id, fun start isSome => ⟨start, isSome, .refl, .inr ?_⟩⟩
    rw [zip_nil_right]
    exact fun _ mem => by cases mem
  | argument :: rest, env, none, position, params => by
    rw [checkArguments]
    refine (checkExpr_yields argument env _).bind fun first => ?_
    refine (checkArguments_yields rest env none _ _).bind fun answer => .pure fun more checks h sound fits => ?_
    obtain ⟨count, passes⟩ := more h sound fun t mem => fits t (mem_of_mem_tail mem)
    have first := checks h fun _ mem => by cases mem
    exact ⟨congrArg Nat.succ count, forall_mem_cons.2 ⟨first, passes.each⟩, passes.none, fun _ mem => by cases mem⟩
  | argument :: rest, env, some call, position, params => by
    have wanted : call.unifier.Sound (body.Open error known) → (∀ t ∈ params, body.Open error known t) →
        ∀ t ∈ params.head? >>= call.closed?, t.Fits (body.place error known) := by
      intro sound fits t mem
      obtain ⟨parameter, isHead, closed⟩ := Option.bind_eq_some_iff.1 mem
      exact OpenCall.closed?_fits sound.holds (fits parameter (mem_of_mem_head? isHead)) closed
    rw [checkArguments]
    dsimp only
    split
    · refine (body.report_yields error _ _).bind fun _ => ?_
      refine (checkArguments_yields rest env _ _ _).bind fun answer => .pure fun more on h sound fits => ?_
      obtain ⟨count, passes⟩ := more h sound fun t mem => fits t (mem_of_mem_tail mem)
      refine ⟨congrArg Nat.succ count, forall_mem_cons.2 ⟨.of_error on ⟨?_, trivial⟩, passes.each⟩, passes.none,
        fun start isSome => ?_⟩
      · cases found : params.head? >>= call.closed? with
        | none => exact on
        | some t => exact wanted (sound call rfl) fits t found
      · obtain ⟨later, isLast, grows, _⟩ := passes.some start isSome
        exact ⟨later, isLast, grows, .inl on⟩
    · refine (checkExpr_yields argument env _).bind fun first => ?_
      cases params with
      | nil =>
        refine (Yields.pure (Q := fun next => next = call) rfl).bind fun next => ?_
        refine (checkArguments_yields rest env (some next) _ _).bind fun answer => .pure ?_
        rintro more rfl checks h sound fits
        obtain ⟨count, passes⟩ := more h sound fits
        have first := checks h fun _ mem => by cases mem
        refine ⟨congrArg Nat.succ count, forall_mem_cons.2 ⟨first, passes.each⟩, passes.none, fun start isSome => ?_⟩
        obtain ⟨later, isLast, grows, _⟩ := passes.some start isSome
        exact ⟨later, isLast, grows, .inr fun _ mem => by cases mem⟩
      | cons parameter params =>
        have strict : error ∨ ∀ t, body.Open error known t → t.Errorless :=
          (em error).imp_right fun clean _ => Open.errorless clean
        refine (body.acceptArgument_yields (Ty.hereditary_fits _) strict call position parameter first
          argument.span).bind fun next => ?_
        refine (checkArguments_yields rest env (some next) _ params).bind fun answer => .pure ?_
        intro more accepted checks h sound fits
        have sound := sound call rfl
        have first := checks h (wanted sound fits)
        obtain ⟨here, there⟩ := forall_mem_cons.1 fits
        obtain ⟨step, admits⟩ := accepted here first.type.withSlots first.type.hasSlot
        have next := (step.unifier sound).1
        obtain ⟨count, passes⟩ := more h (by rintro _ ⟨⟩; exact next) there
        refine ⟨congrArg Nat.succ count, forall_mem_cons.2 ⟨first, passes.each⟩, nofun, ?_⟩
        rintro _ ⟨⟩
        obtain ⟨later, isLast, grows, others⟩ := passes.some _ rfl
        refine ⟨later, isLast, step.trans grows, ?_⟩
        rcases admits with on | admits
        · exact .inl on
        · exact others.imp_right fun others => forall_mem_cons.2 ⟨(admits sound).grows next grows, others⟩

theorem checkStatements_yields : ∀ (statements : List Statement) (env : Env)
    (mode : Mode), Yields error (checkStatements body env mode statements) fun typed => body.Knows error known env →
      mode.Fits (body.place error known) → body.PassesStatements error known env statements typed
  | [], env, mode => by
    rw [checkStatements]
    exact .pure fun _ _ => ⟨rfl, ⟨trivial, fun _ => .nil⟩, fun _ mem => by cases mem⟩
  | statement :: rest, env, mode => by
    rw [checkStatements]
    refine (checkStatement_yields statement env _).bind fun answer => ?_
    refine (checkStatements_yields rest answer.2 mode).bind fun more => .pure ?_
    intro others checks h fits
    have first := checks h (by
      split
      · exact fits
      · exact fun _ mem => by cases mem)
    exact first.cons' (others first.scope fits)

theorem checkStatement_yields : ∀ (statement : Statement) (env : Env)
    (mode : Mode), Yields error (checkStatement body env mode statement) fun answer => body.Knows error known env →
      mode.Fits (body.place error known) → body.PassesStatement error known env statement answer
  | .bind name type initializer span, env, mode => by
    rw [checkStatement]
    refine (body.lowerWritten_yields error known type).bind fun written => ?_
    refine (checkOption_yields initializer env _).bind fun value => ?_
    refine (body.bindingType_yields error known name span written value).bind fun t => .pure ?_
    intro binds checks meant h _
    rw [shareType_eq]
    have meant := meant h.regular
    have value := checks h fun s isSome => meant _ (Option.join_eq_some_iff.1 isSome)
    obtain ⟨fits, stored⟩ := binds h.regular meant fun e mem => (value e mem).type
    refine ⟨nofun, ⟨h.regular, forall_mem_cons.2 ⟨fits, h.env⟩⟩, fun rest more => ⟨?_, fun strict => ?_⟩⟩
    · refine Ty.fitAll_append.2 ⟨⟨fits, ?_⟩, more.fits⟩
      exact TypedExpr.fitAll_storedInOption.2 fun e mem => (value e mem).fits
    · exact .bind (fun e mem => (value e mem).typed strict) (stored strict) (more.typed strict)
  | .expression value, env, mode => by
    rw [checkStatement]
    refine (checkExpr_yields value env mode).bind fun typed => .pure fun accepts h fits => ?_
    have typed := accepts h fits
    refine ⟨fun _ _ => ⟨_, rfl⟩, h, fun rest more => ⟨?_, fun strict => ?_⟩⟩
    · exact Ty.fitAll_append.2 ⟨typed.fits, more.fits⟩
    · exact .expression (typed.typed strict) (more.typed strict)
  | .ret value span, env, mode => by
    rw [checkStatement]
    refine (checkOption_yields value env _).bind fun typed => ?_
    refine (Yields.of_ensures (body.expectAssignable_ensures _ _ _ _)).bind fun _ => .pure fun stored checks h _ => ?_
    have value := checks h fun t same => (by cases same; exact h.regular.result)
    refine ⟨nofun, h, fun rest more => ⟨?_, fun strict => ?_⟩⟩
    · refine Ty.fitAll_append.2 ⟨?_, more.fits⟩
      exact TypedExpr.fitAll_storedInOption.2 fun e mem => (value e mem).fits
    · refine .ret (fun e mem => (value e mem).typed strict) ?_ (more.typed strict)
      cases typed with
      | none => exact h.regular.assignable strict h.regular.result trivial stored
      | some e => exact h.regular.assignable strict h.regular.result (value e rfl).type stored

theorem checkOption_yields : ∀ (value : Option Expr) (env : Env)
    (mode : Mode), Yields error (checkOption body env mode value) fun typed => body.Knows error known env →
      mode.Fits (body.place error known) → ∀ e ∈ typed, body.Accepts error known env e
  | none, env, mode => by
    rw [checkOption]
    exact .pure fun _ _ _ mem => by cases mem
  | some value, env, mode => by
    rw [checkOption]
    refine (checkExpr_yields value env mode).bind fun typed => .pure fun accepts h fits e mem => ?_
    cases mem
    exact accepts h fits

end

end Checks

end BodyContext

end SemanticChecker
