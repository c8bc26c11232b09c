import SemanticChecker.Proofs.Flow.Exactness
import SemanticChecker.Proofs.Mirror.Bodies
import SemanticChecker.Proofs.Soundness.Program

/-! Bodies of which every way returns. What the check of a body marks so has no run that goes on, and then nothing leads
to the block in which the body ends. Where something does, and a result is asked for, the last statement yields it. -/
namespace SemanticChecker

namespace TraceM

theorem block_cons_cons (scope : FlowScope) (next : Nat) (first second : Statement) (rest : List Statement) :
    block scope next (first :: second :: rest) = statement scope next first >>= fun _ =>
      block (first.scopeAfter scope next) (next + first.lets.length) (second :: rest) := by
  rw [block]
  rfl

mutual

theorem done_expr_of_diverges {scope : FlowScope} {next : Nat} {kind : UseKind} :
    ∀ {e : Expr}, e.diverges = true → (expr scope next kind e).done = 0
  | ⟨form, _⟩, h => by
    cases form with
    | cond condition thenBranch elseBranch =>
      cases elseBranch with
      | none => cases h
      | some elseBranch =>
        obtain ⟨left, right⟩ := Bool.and_eq_true_iff.1 h
        rw [expr, done_then, done_either, done_then, done_then, orElse, done_block_of_diverges left,
          done_block_of_diverges right, mul_zero, mul_zero, add_zero, mul_zero]
    | _ => cases h

theorem done_statement_of_diverges {scope : FlowScope} {next : Nat} :
    ∀ {s : Statement}, s.diverges = true → (statement scope next s).done = 0
  | .ret none _, _ => done_leave
  | .ret (some value) _, _ => by rw [statement, done_then, done_leave, mul_zero]
  | .expression _, h => done_expr_of_diverges h
  | .bind .., h => by cases h

theorem done_block_of_diverges {scope : FlowScope} {next : Nat} :
    ∀ {body : List Statement}, Block.diverges body = true → (block scope next body).done = 0
  | [], h => by cases h
  | [last], h => by
    have returns : last.diverges = true := by simpa [Block.diverges] using h
    rw [block]
    simpa using done_statement_of_diverges returns
  | first :: second :: rest, h => by
    rw [block_cons_cons, done_then]
    rcases Bool.or_eq_true_iff.1 h with now | later
    · rw [done_statement_of_diverges now, zero_mul]
    · rw [done_block_of_diverges later, mul_zero]

end

/-- A run to the end of a block whose last statement is an expression ends with a run of that expression. -/
theorem done_block_tail {tail : Expr} : ∀ {scope : FlowScope} {next : Nat} {body : List Statement},
    body.getLast? = some (.expression tail) → ∀ ops ∈ (block scope next body).done,
      ∃ before after inner later, ops = before ++ after ∧ after ∈ (expr inner later .read tail).done
  | scope, next, [last], isLast, ops, mem => by
    obtain rfl := Option.some.inj isLast
    rw [block] at mem
    exact ⟨[], ops, scope, next, rfl, by simpa [statement] using mem⟩
  | scope, next, first :: second :: rest, isLast, ops, mem => by
    rw [block_cons_cons, done_then] at mem
    obtain ⟨early, _, late, ended, rfl⟩ := Language.mem_mul.1 mem
    have isLast : (second :: rest).getLast? = some (.expression tail) := isLast
    obtain ⟨before, after, inner, later, rfl, isRun⟩ := done_block_tail isLast late ended
    exact ⟨early ++ before, after, inner, later, (List.append_assoc ..).symm, isRun⟩

end TraceM

namespace FlowGraph

/-- The block in which a body ends. -/
def lastBlock (parameters : List (String × Span)) (body : Block) : BlockId :=
  ((BuildM.body parameters body).run {}).2.current

/-- From the block in which a body ends the way leads to the exit, and what can be read on the ways through it are the runs
of the body that do not return. -/
theorem passes_lastBlock (parameters : List (String × Span)) (body : Block) :
    exit ∈ ((ofBody parameters body).block (lastBlock parameters body)).successors ∧
      (ofBody parameters body).passes (lastBlock parameters body) = (body.runs parameters).done := by
  obtain ⟨built, run, ready, _, ends, _⟩ := BuildM.run_body parameters body
  have sound := ready.toSound
  rw [ofBody, lastBlock, run]
  refine ⟨(mem_successors_addEdge sound.inside ..).2 (.inr ⟨rfl, rfl⟩), ?_⟩
  rw [← ends, FlowBuilder.ends, passes, passes]
  have final : (built.graph.block exit).successors = [] := by rw [ready.final]
  have comes := FlowBuilder.comes_moveOn_of_ne sound final ready.elsewhere built.current ready.elsewhere.symm
  exact congrArg₂ (· * ·) comes (congrArg _ (ops_addEdge ..))

end FlowGraph

namespace BodyContext

variable (body : BodyContext)

theorem checkStatement_form (env : Env) (mode : Mode) (statement : Statement) :
    Finds (checkStatement body env mode statement) fun answer =>
      ∀ value, statement = .expression value → ∃ typed, answer.1 = .expression typed := by
  cases statement with
  | expression value =>
    rw [checkStatement]
    exact .after fun typed => .pure fun _ _ => ⟨typed, rfl⟩
  | _ => exact fun _ _ => nofun

theorem checkStatements_last : ∀ (block : Block) (env : Env) (mode : Mode),
    Finds (checkStatements body env mode block) fun statements => statements.length = block.length ∧
      ∀ value, block.getLast? = some (.expression value) → ∃ found, statements.getLast? = some (.expression found)
  | [], env, mode => by
    rw [checkStatements]
    exact .pure ⟨rfl, fun _ isLast => by cases isLast⟩
  | statement :: rest, env, mode => by
    rw [checkStatements]
    refine .bind (body.checkStatement_form env _ statement) fun answer form => ?_
    refine .bind (checkStatements_last rest answer.2 mode) fun more others => .pure ?_
    exact ⟨congrArg Nat.succ others.1, getLast_form others.1 form others.2⟩

theorem checkBlock_diverges (env : Env) (mode : Mode) (block : Block) :
    Finds (body.checkBlock env mode block) fun typed => typed.diverges = Block.diverges block :=
  (checkStatements_renders body block env mode).bind fun _ renders => .pure renders.diverges

theorem checkFunctionBody_diverges (env : Env) (parameters : List (String × Span)) (function : String) (span : Span)
    (block : Block) : Finds (body.checkFunctionBody env parameters function span block) fun typed =>
      typed.diverges = Block.diverges block := by
  have result : Finds (body.checkResult env function span block) fun typed => typed.diverges = Block.diverges block := by
    refine .bind (body.checkBlock_diverges env _ block) fun typed same => ?_
    split
    · exact .pure same
    · dsimp only
      split <;> exact .after fun _ => .pure same
  unfold checkFunctionBody
  dsimp only
  split
  · exact (body.checkBlock_diverges env .statement block).bind fun typed same => .after fun _ => .pure same
  · exact result.bind fun typed same => .after fun _ => .pure same

theorem checkBlock_last (env : Env) (expected : Option Ty) (block : Block) :
    Ensures (body.checkBlock env (.value expected) block) fun typed => ∀ tail,
      block.getLast? = some (.expression tail) →
        ∃ value, typed.statements.getLast? = some (.expression value) ∧ typed.type = value.type := by
  have checks := (checkStatements_yields body True (fun _ => True) block env (.value expected)).1
  refine (checks.finding (body.checkStatements_last block env _)).bind fun statements => .pure fun found tail isTail => ?_
  obtain ⟨value, last⟩ := found.2.2 tail isTail
  exact ⟨value, last, by simp only [TypedBlock.ofStatements, last, TypedBlock.type]⟩

/-- Where no error is reported and a result is asked for, every way through a body returns, or its last statement is an
expression whose value may be returned. -/
theorem checkFunctionBody_returns (env : Env) (parameters : List (String × Span)) (function : String) (span : Span)
    (block : Block) : Ensures (body.checkFunctionBody env parameters function span block) fun typed =>
      body.result ≠ .unit → typed.diverges = true ∨ ∃ tail value, block.getLast? = some (.expression tail) ∧
        typed.statements.getLast? = some (.expression value) ∧
        body.program.isAssignable body.result value.type = true := by
  unfold checkFunctionBody checkResult
  dsimp only
  split
  · rename_i isUnit
    refine (body.checkBlock_yields True (fun _ => True) env .statement block).1.bind fun typed => ?_
    exact (reportFlow_yields True _ typed).1.mono fun _ _ _ differ => absurd isUnit differ
  · refine ((body.checkBlock_last env _ block).bind (R := fun typed => typed.diverges = true ∨ ∃ tail value,
      block.getLast? = some (.expression tail) ∧ typed.statements.getLast? = some (.expression value) ∧
        body.program.isAssignable body.result value.type = true) fun typed => ?_).bind fun typed =>
      (reportFlow_yields True _ typed).1.mono fun _ same yields _ => same ▸ yields
    split
    · exact .pure fun _ => .inl ‹_›
    · split
      · rename_i tail found
        refine (body.expectAssignable_ensures _ _ _ _).bind fun _ => .pure fun stored last => .inr ?_
        have isTail := Block.tail?_eq_some.1 found
        obtain ⟨value, isLast, type⟩ := last tail isTail
        exact ⟨tail, value, isTail, isLast, type ▸ stored⟩
      · exact body.refused

/-- The way from the block in which a body ends leads to the exit. If the check marks the body as diverging, nothing leads
to that block, and what is read on any way to the exit is what a run reads that returns. If it reports no error and a
result is asked for, what is read on any way to the end of that block ends with a run of the last statement, which is an
expression whose value may be returned. -/
theorem divergence_sound (env : Env) (parameters : List (String × Span)) (function : String) (span : Span)
    (block : Block) :
    let graph := FlowGraph.ofBody parameters block
    let last := FlowGraph.lastBlock parameters block
    FlowGraph.exit ∈ (graph.block last).successors ∧
    (Finds (body.checkFunctionBody env parameters function span block) fun typed => typed.diverges = true →
      (∀ path, ¬ graph.Leads path last) ∧ ∀ path, graph.Leads path FlowGraph.exit →
        ∃ run ∈ (block.runs parameters).runs, run.value = none ∧ run.ops = graph.opsOn path) ∧
    Ensures (body.checkFunctionBody env parameters function span block) fun typed => body.result ≠ .unit →
      ∀ path, graph.Leads path last → ∃ tail value, block.getLast? = some (.expression tail) ∧
        typed.statements.getLast? = some (.expression value) ∧
        body.program.isAssignable body.result value.type = true ∧
        ∃ before after scope next, graph.opsOn (path ++ [last]) = before ++ after ∧
          after ∈ (TraceM.expr scope next .read tail).done := by
  intro graph last
  obtain ⟨way, passes⟩ := FlowGraph.passes_lastBlock parameters block
  have ended : ∀ path, graph.Leads path last → graph.opsOn (path ++ [last]) ∈ (block.runs parameters).done :=
    fun path leads => passes ▸ FlowGraph.mem_passes.2 ⟨path, leads, rfl⟩
  have split : (block.runs parameters).done = (TraceM.parameters 0 parameters).done *
      (TraceM.block (FlowScope.ofParameters [] 0 parameters) parameters.length block).done := TraceM.done_then ..
  have stuck : Block.diverges block = true → (block.runs parameters).done = 0 := fun diverges => by
    rw [split, TraceM.done_block_of_diverges diverges, mul_zero]
  have same := body.checkFunctionBody_diverges env parameters function span block
  refine ⟨way, fun s diverges => ?_, ?_⟩
  · rw [same s] at diverges
    refine ⟨fun path leads => ?_, fun path leads => ?_⟩
    · exact Language.notMem_zero _ (stuck diverges ▸ ended path leads)
    · have read := (FlowGraph.ofBody_ways parameters block).2.2.2.2 _ |>.1 ⟨path, leads, rfl⟩
      rcases TraceM.mem_map_ops.1 read with returned | done
      · exact ⟨_, returned, rfl, rfl⟩
      · exact (Language.notMem_zero _ (stuck diverges ▸ done)).elim
  · refine ((body.checkFunctionBody_returns env parameters function span block).finding same).mono ?_
    rintro typed ⟨yields, same⟩ differ path leads
    rcases yields differ with diverges | ⟨tail, value, isTail, isLast, stored⟩
    · exact (Language.notMem_zero _ (stuck (same ▸ diverges) ▸ ended path leads)).elim
    · obtain ⟨first, _, rest, isRun, joined⟩ := Language.mem_mul.1 (split ▸ ended path leads)
      obtain ⟨before, after, scope, next, rfl, isTailRun⟩ := TraceM.done_block_tail isTail rest isRun
      exact ⟨tail, value, isTail, isLast, stored, first ++ before, after, scope, next,
        joined.symm.trans (List.append_assoc ..).symm, isTailRun⟩

end BodyContext

end SemanticChecker
