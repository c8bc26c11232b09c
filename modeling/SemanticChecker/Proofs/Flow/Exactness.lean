import SemanticChecker.Proofs.Flow.Paths

/-! The graph of a body is exact: what can be read on its ways from the entry to the exit are the runs of the body, form
by form of expressions and statements. -/
namespace SemanticChecker

open List TraceM BuildM

theorem Expr.eq_of_isNone {e : Expr} (isNone : e.isNone = true) : ∃ span, e = ⟨.literal .none, span⟩ := by
  unfold Expr.isNone at isNone
  split at isNone
  · exact ⟨_, rfl⟩
  · cases isNone

theorem Expr.eq_of_name? {e : Expr} {name : String} (named : e.name? = some name) :
    ∃ span, e = ⟨.ident name, span⟩ := by
  unfold Expr.name? at named
  split at named
  · obtain rfl := Option.some.inj named
    exact ⟨_, rfl⟩
  · cases named

theorem Expr.eq_of_noneGuard? {e : Expr} {name : String} {operator : Operator}
    (guard : e.noneGuard? = some (name, operator)) :
    ∃ span named nothing, e = ⟨.binary operator ⟨.ident name, named⟩ ⟨.literal .none, nothing⟩, span⟩ ∨
      e = ⟨.binary operator ⟨.literal .none, nothing⟩ ⟨.ident name, named⟩, span⟩ := by
  unfold Expr.noneGuard? at guard
  split at guard
  · rename_i found left right span
    split at guard
    · rename_i none
      obtain ⟨text, named, same⟩ := Option.map_eq_some_iff.1 guard
      obtain ⟨rfl, rfl⟩ := Prod.mk.inj same
      obtain ⟨here, rfl⟩ := Expr.eq_of_name? named
      obtain ⟨there, rfl⟩ := Expr.eq_of_isNone none
      exact ⟨span, here, there, .inl rfl⟩
    · split at guard
      · rename_i none
        obtain ⟨text, named, same⟩ := Option.map_eq_some_iff.1 guard
        obtain ⟨rfl, rfl⟩ := Prod.mk.inj same
        obtain ⟨here, rfl⟩ := Expr.eq_of_name? named
        obtain ⟨there, rfl⟩ := Expr.eq_of_isNone none
        exact ⟨span, here, there, .inr rfl⟩
      · cases guard
  · cases guard

theorem Expr.told_eq (scope : FlowScope) (taken : Bool) (condition : Expr) :
    condition.told scope taken = match Narrowing.of? scope condition with
      | some guard => [.assume guard.binding (if taken then guard.inThen else guard.inElse)]
      | none => [] := by
  cases compares : condition.noneGuard? with
  | none =>
    have nothing : Narrowing.of? scope condition = none := by simp [Narrowing.of?, compares]
    rw [nothing]
    unfold Expr.told
    split <;> first | rfl | cases compares
  | some pair =>
    obtain ⟨name, operator⟩ := pair
    obtain ⟨span, named, nothing, form⟩ := Expr.eq_of_noneGuard? compares
    simp only [Narrowing.of?, compares, Option.bind_eq_bind, Option.bind_some]
    rcases form with rfl | rfl <;> cases found : scope.lookup name <;> cases operator <;> cases taken <;>
      simp [Expr.told, FlowScope.told, found]

theorem traces_narrow (scope : FlowScope) (condition : Expr) (taken : Bool) {state : Narrowing → NoneState}
    (chosen : state = if taken then Narrowing.inThen else Narrowing.inElse) :
    Traces (narrow (Narrowing.of? scope condition) state) [] (fun _ => ())
      fun _ => perform (condition.told scope taken) := by
  rw [Expr.told_eq]
  cases Narrowing.of? scope condition with
  | none => exact .pure () ()
  | some guard =>
    have same : (if taken = true then guard.inThen else guard.inElse) = state guard := by
      subst chosen
      cases taken <;> rfl
    simp only [same]
    exact .emit _

theorem traces_deliver (target : Option BindingId) (source : ValueSource) :
    Traces (BuildM.deliver target source) [] (fun _ => source) fun _ => store target (some source) := by
  cases target with
  | none => exact .pure source ()
  | some id => exact (Traces.emit (.assign id source)).bind (f := fun _ => pure source) fun _ => .pure source ()

namespace Traces

variable {α β : Type} {build : BuildM α} {lets : List FlowBinding} {answer : Nat → α} {runs : Nat → TraceM β}

theorem deliver (h : Traces build lets answer runs) (target : Option BindingId) :
    Traces (build >>= fun _ => BuildM.deliver target .notNone) lets (fun _ => .notNone)
      fun next => runs next >>= fun _ => store target (some .notNone) := by
  have both := h.seq (traces_deliver target .notNone)
  rwa [append_nil] at both

theorem forOps {build : BuildM ValueSource} {answer : Nat → ValueSource} {runs : Nat → TraceM (Option ValueSource)}
    (h : Traces build lets answer fun next => runs next >>= store none) :
    Traces (Functor.discard build) lets (fun _ => ()) fun next => Functor.discard (runs next) := by
  refine h.discard.congr fun next => ?_
  rw [store_nowhere]
  rfl

end Traces

theorem Operator.operandUse_eq (operator : Operator) : operator.operandUse = operator.usesOperandAs := by
  cases operator <;> rfl

mutual

theorem traces_evaluate (scope : FlowScope) (kind : UseKind) (target : Option BindingId) : ∀ e : Expr,
    Traces (evaluate scope kind target e) e.lets (fun _ => e.source scope)
      fun next => expr scope next kind e >>= store target
  | ⟨.literal value, _⟩ => by
    cases value <;> simp only [evaluate, expr, Expr.source, Expr.lets, pure_bind] <;>
      exact traces_deliver target _
  | ⟨.ident name, span⟩ => by
    simp only [evaluate, expr, Expr.source, Expr.lets]
    cases scope.lookup name with
    | none =>
      simp only [pure_bind]
      exact traces_deliver target .notNone
    | some id =>
      simp only [bind_assoc, pure_bind]
      exact ((Traces.emit (.use id kind span)).seq (traces_deliver target (.binding id)) :)
  | ⟨.tuple items, _⟩ => by
    simp only [evaluate, expr, Expr.source, Expr.lets, bind_assoc, pure_bind]
    exact (traces_evaluateAll scope .read items).deliver target
  | ⟨.list items, _⟩ => by
    simp only [evaluate, expr, Expr.source, Expr.lets, bind_assoc, pure_bind]
    exact (traces_evaluateAll scope .read items).deliver target
  | ⟨.dict entries, _⟩ => by
    simp only [evaluate, expr, Expr.source, Expr.lets, bind_assoc, pure_bind]
    exact (traces_evaluateEntries scope entries).deliver target
  | ⟨.assign ⟨place, span⟩ value, _⟩ => by
    have given := traces_evaluate scope .read none value
    have read := traces_evaluate scope .read none ⟨place, span⟩
    have both := given.forOps.seq (read.forOps.deliver target)
    cases place with
    | ident name =>
      have stored := (traces_evaluate scope .read (scope.lookup name) value).discard.deliver target
      simp only [evaluate, expr, Expr.source, Expr.lets, append_nil]
      simpa only [bind_assoc, pure_bind] using stored
    | field object name =>
      have accessed := given.forOps.seq ((traces_evaluate scope .fieldAccess none object).forOps.deliver target)
      simp only [evaluate, expr, Expr.source, Expr.lets, bind_assoc, pure_bind]
      exact accessed
    | _ =>
      simp only [evaluate, expr, Expr.source, Expr.lets, bind_assoc, pure_bind] at both ⊢
      exact both
  | ⟨.call ⟨callee, span⟩ _ arguments, _⟩ => by
    have passed := (traces_evaluateAll scope .argument arguments).deliver target
    have read := (traces_evaluate scope .read none ⟨callee, span⟩).forOps.seq passed
    cases callee with
    | field object name =>
      have received := (traces_evaluate scope .receiver none object).forOps.seq passed
      simp only [evaluate, expr, Expr.source, Expr.lets, bind_assoc, pure_bind]
      exact received
    | _ =>
      simp only [evaluate, expr, Expr.source, Expr.lets, bind_assoc, pure_bind] at read ⊢
      exact read
  | ⟨.field object _, _⟩ => by
    simp only [evaluate, expr, Expr.source, Expr.lets, bind_assoc, pure_bind]
    exact (traces_evaluate scope .fieldAccess none object).forOps.deliver target
  | ⟨.binary operator left right, _⟩ => by
    have second := (traces_evaluate scope operator.usesOperandAs none right).forOps.deliver target
    have both := (traces_evaluate scope operator.usesOperandAs none left).forOps.seq second
    simp only [evaluate, expr, Expr.source, Expr.lets, bind_assoc, pure_bind]
    rw [operator.operandUse_eq]
    exact both
  | ⟨.cond condition thenBranch elseBranch, _⟩ => by
    have inThen := (traces_narrow scope condition true rfl).seq (traces_statements scope target thenBranch)
    have inElse := (traces_narrow scope condition false rfl).seq (traces_otherwise scope target elseBranch)
    have whole := (traces_evaluate scope .read none condition).forOps.seq (inThen.fork inElse)
    simp only [evaluate, expr, Expr.source, Expr.lets, bind_assoc, either_bind]
    exact whole

theorem traces_evaluateAll (scope : FlowScope) (kind : UseKind) : ∀ items : List Expr,
    Traces (evaluateAll scope kind items) (Expr.letsAll items) (fun _ => ())
      fun next => exprs scope next kind items
  | [] => .pure () ()
  | item :: rest => by
    simp only [evaluateAll, exprs, Expr.letsAll]
    exact ((traces_evaluate scope kind none item).forOps.seq (traces_evaluateAll scope kind rest) :)

theorem traces_evaluateEntries (scope : FlowScope) : ∀ entries : List (Expr × Expr),
    Traces (evaluateEntries scope entries) (Expr.letsOf entries) (fun _ => ())
      fun next => pairs scope next entries
  | [] => .pure () ()
  | (key, value) :: rest => by
    have more := (traces_evaluate scope .read none value).forOps.seq (traces_evaluateEntries scope rest)
    simp only [evaluateEntries, pairs, Expr.letsOf]
    exact ((traces_evaluate scope .read none key).forOps.seq more :)

theorem traces_otherwise (scope : FlowScope) (target : Option BindingId) : ∀ branch : Option (List Statement),
    Traces (otherwise scope target branch) (Statement.letsElse branch) (fun _ => ())
      fun next => orElse scope next branch >>= store target
  | none => by
    simp only [otherwise, orElse, Statement.letsElse, pure_bind, store_nothing]
    exact .pure () ()
  | some branch => by
    simp only [otherwise, orElse, Statement.letsElse]
    exact traces_statements scope target branch

theorem traces_statements (scope : FlowScope) (target : Option BindingId) : ∀ block : List Statement,
    Traces (statements scope target block) (Statement.letsAll block) (fun _ => ())
      fun next => TraceM.block scope next block >>= store target
  | [] => by
    simp only [statements, TraceM.block, Statement.letsAll, pure_bind, store_nothing]
    exact .pure () ()
  | [last] => by
    simp only [statements, TraceM.block, Statement.letsAll, isEmpty_nil, ↓reduceIte, bind_pure,
      append_nil]
    exact (traces_statement scope target last).returning ()
  | first :: second :: rest => by
    have both := (traces_statement scope none first).bind
      (f := fun inner => statements inner target (second :: rest))
      fun next => traces_statements (first.scopeAfter scope next) target (second :: rest)
    rw [statements, Statement.letsAll]
    refine both.congr fun next => ?_
    rw [TraceM.block]
    simp only [isEmpty_cons, Bool.false_eq_true, ↓reduceIte, bind_assoc, store_nowhere, pure_bind]

theorem traces_statement (scope : FlowScope) (target : Option BindingId) : ∀ statement : Statement,
    Traces (BuildM.statement scope target statement) statement.lets (fun next => statement.scopeAfter scope next)
      fun next => TraceM.statement scope next statement >>= store target
  | .bind name type none span => by
    simp only [BuildM.statement, TraceM.statement, Statement.lets, Statement.scopeAfter, bind_assoc, pure_bind,
      store_nothing]
    refine (Traces.declaring (r := fun next _ => perform [.declare ⟨next⟩ none])
      fun next => ?_).congr fun next => ?_
    · exact (Traces.emit _).returning _
    · exact bind_pure_unit
  | .bind name type (some value) span => by
    simp only [BuildM.statement, TraceM.statement, Statement.lets, Statement.scopeAfter]
    cases isCond : value.isCond with
    | true =>
      simp only [↓reduceIte, bind_assoc, pure_bind, store_nothing, bind_pure_unit]
      refine Traces.declaring (r := fun next start => perform [.declare ⟨next⟩ none] >>= fun _ =>
        expr scope start .read value >>= store (some ⟨next⟩)) fun next => ?_
      exact ((Traces.emit _).seq ((traces_evaluate scope .read (some ⟨next⟩) value).discard.returning _) :)
    | false =>
      simp only [Bool.false_eq_true, ↓reduceIte, bind_assoc, pure_bind, store_nothing, bind_pure_unit]
      refine (Traces.declaring (r := fun next start => expr scope start .read value >>= fun _ =>
        perform [.declare ⟨next⟩ (some (value.source scope))]) fun next => ?_).congr fun next => ?_
      · have both := (traces_evaluate scope .read none value).bind
          (f := fun source => BuildM.emit (.declare ⟨next⟩ (some source)) >>= fun _ => pure ((name, ⟨next⟩) :: scope))
          fun _ => (Traces.emit (.declare ⟨next⟩ (some (value.source scope)))).returning ((name, ⟨next⟩) :: scope)
        rw [append_nil] at both
        refine both.congr fun start => ?_
        simp only [store_nowhere, bind_assoc, pure_bind]
      · exact (expr_yields isCond).bind_eq _
  | .expression value => by
    simp only [BuildM.statement, TraceM.statement, Statement.lets, Statement.scopeAfter]
    exact (traces_evaluate scope .read target value).discard.returning scope
  | .ret none _ => by
    simp only [BuildM.statement, TraceM.statement, Statement.lets, Statement.scopeAfter]
    exact .leave scope Unit
  | .ret (some value) _ => by
    have whole := (traces_evaluate scope .read none value).forOps.seq (.leave scope Unit)
    simp only [BuildM.statement, TraceM.statement, Statement.lets, Statement.scopeAfter, bind_assoc, leave_bind]
    rw [append_nil] at whole
    exact whole

end

theorem traces_parameters (declared : List (String × Span)) : ∀ scope : FlowScope,
    Traces (BuildM.parameters scope declared) (declared.map fun (name, span) => ⟨name, span⟩)
      (fun next => FlowScope.ofParameters scope next declared) fun next => TraceM.parameters next declared := by
  induction declared with
  | nil => exact fun scope => .pure scope ()
  | cons parameter rest ih =>
    obtain ⟨name, span⟩ := parameter
    intro scope
    have each := fun next => (Traces.emit (.declare ⟨next⟩ (some .notNone))).bind
      (f := fun _ => BuildM.parameters ((name, ⟨next⟩) :: scope) rest) fun _ => ih ((name, ⟨next⟩) :: scope)
    have whole := (Traces.newBinding name span).bind
      (f := fun id => BuildM.emit (.declare id (some .notNone)) >>= fun _ =>
        BuildM.parameters ((name, id) :: scope) rest) each
    simp only [BuildM.parameters, TraceM.parameters, FlowScope.ofParameters, map_cons]
    refine whole.congr fun next => ?_
    rw [pure_bind]
    rfl

namespace FlowBuilder

theorem ready_empty : FlowBuilder.Ready {} where
  toSound := sound_empty
  elsewhere := by decide
  final := rfl

theorem leads_empty {path : List BlockId} {id : BlockId} :
    FlowGraph.Leads {} path id ↔ path = [] ∧ id = FlowGraph.entry := by
  constructor
  · intro leads
    induction leads with
    | start => exact ⟨rfl, rfl⟩
    | step _ way ih =>
      rw [ih.2] at way
      cases way
  · rintro ⟨rfl, rfl⟩
    exact .start

theorem ends_empty : FlowBuilder.ends {} = 1 := by
  ext ops
  rw [FlowBuilder.ends, FlowGraph.mem_passes, Language.mem_one]
  constructor
  · rintro ⟨path, leads, rfl⟩
    rw [(leads_empty.1 leads).1]
    rfl
  · rintro rfl
    exact ⟨[], .start, rfl⟩

theorem exits_empty : FlowGraph.comes {} FlowGraph.exit = 0 := by
  ext ops
  simp only [FlowGraph.mem_comes, Language.notMem_zero, iff_false]
  rintro ⟨path, leads, _⟩
  exact absurd (leads_empty.1 leads).2 (by decide)

end FlowBuilder

/-- All runs of a body, after the declarations of its parameters. -/
def Block.runs (parameters : List (String × Span)) (body : Block) : TraceM (Option ValueSource) := do
  TraceM.parameters 0 parameters
  TraceM.block (FlowScope.ofParameters [] 0 parameters) parameters.length body

theorem BuildM.run_body (parameters : List (String × Span)) (body : Block) :
    ∃ built : FlowBuilder, ((BuildM.body parameters body).run {}).2 = built.moveOn FlowGraph.exit built.current ∧
      built.Ready ∧
      built.graph.bindings = (parameters.map fun (name, span) => ⟨name, span⟩) ++ Statement.letsAll body ∧
      built.ends = (body.runs parameters).done ∧
      built.graph.comes FlowGraph.exit = (body.runs parameters).returned := by
  have whole := (traces_parameters parameters []).bind (f := fun scope => statements scope none body)
    fun next => traces_statements (FlowScope.ofParameters [] next parameters) none body
  obtain ⟨_, bindings, follows⟩ := whole {} FlowBuilder.ready_empty
  have same : (TraceM.parameters 0 parameters >>= fun _ => TraceM.block (FlowScope.ofParameters [] 0 parameters)
      (0 + (parameters.map fun (name, span) => (⟨name, span⟩ : FlowBinding)).length) body >>= store none) =
        body.runs parameters >>= fun _ => pure () := by
    simp [Block.runs]
  refine ⟨_, rfl, FlowBuilder.ready_empty.grow follows.grows follows.sound, bindings, ?_, ?_⟩
  · refine follows.ends.trans ?_
    rw [FlowBuilder.ends_empty, one_mul]
    exact (congrArg done same).trans (by rw [done_then, done_pure, mul_one])
  · refine follows.exits.trans ?_
    rw [FlowBuilder.exits_empty, FlowBuilder.ends_empty, zero_add, one_mul]
    refine (congrArg returned same).trans ?_
    rw [returned_then, returned_pure, mul_zero, add_zero]

/-- The graph of a body is linked and has an empty exit. It declares what the body declares, and what can be read on the
ways to its exit are the runs of the body. -/
theorem FlowGraph.ofBody_ways (parameters : List (String × Span)) (body : Block) :
    (ofBody parameters body).Linked ∧ 0 < (ofBody parameters body).blocks.length ∧
      (ofBody parameters body).block exit = {} ∧
      (ofBody parameters body).bindings =
        (parameters.map fun (name, span) => ⟨name, span⟩) ++ Statement.letsAll body ∧
      ∀ ops, ops ∈ (ofBody parameters body).comes exit ↔ ops ∈ body.traces parameters := by
  obtain ⟨built, run, ready, bindings, ends, exits⟩ := run_body parameters body
  have sound := ready.toSound
  rw [ofBody, run]
  refine ⟨sound.linked.addEdge sound.inside sound.exits, ?_,
    (FlowBuilder.block_moveOn ready.elsewhere _ _).trans ready.final, bindings, fun ops => ?_⟩
  · simp only [FlowBuilder.moveOn, FlowGraph.length_addEdge]
    exact Nat.lt_of_le_of_lt (Nat.zero_le _) sound.inside
  rw [FlowBuilder.comes_moveOn_self sound (by rw [ready.final]) ready.elsewhere, exits, ends]
  exact mem_map_ops.symm

/-- The graph of a body declares what the body declares, in order, and what can be read on its ways from the entry to
the exit are the runs of the body. -/
theorem FlowGraph.ofBody_exact (parameters : List (String × Span)) (body : Block) :
    (FlowGraph.ofBody parameters body).bindings =
        (parameters.map fun (name, span) => ⟨name, span⟩) ++ Statement.letsAll body ∧
      ∀ ops, (∃ path, (FlowGraph.ofBody parameters body).Leads path FlowGraph.exit ∧
        (FlowGraph.ofBody parameters body).opsOn (path ++ [FlowGraph.exit]) = ops) ↔ ops ∈ body.traces parameters := by
  obtain ⟨_, _, final, bindings, ways⟩ := FlowGraph.ofBody_ways parameters body
  refine ⟨bindings, fun ops => ?_⟩
  rw [← FlowGraph.mem_passes, FlowBuilder.passes_of_empty final, ways]

-- `let x = if y == None: return else: y`, where `y` is a parameter
example : Block.traces [("y", {})]
    [.bind "x" none (some ⟨.cond ⟨.binary .equal ⟨.ident "y", {}⟩ ⟨.literal .none, {}⟩, {}⟩ [.ret none {}]
      (some [.expression ⟨.ident "y", {}⟩]), {}⟩) {}] =
    [[.declare ⟨0⟩ (some .notNone), .declare ⟨1⟩ none, .use ⟨0⟩ .read {}, .assume ⟨0⟩ .definitelyNone],
      [.declare ⟨0⟩ (some .notNone), .declare ⟨1⟩ none, .use ⟨0⟩ .read {}, .assume ⟨0⟩ .definitelyNotNone,
        .use ⟨0⟩ .read {}, .assign ⟨1⟩ (.binding ⟨0⟩)]] := by
  decide

end SemanticChecker
