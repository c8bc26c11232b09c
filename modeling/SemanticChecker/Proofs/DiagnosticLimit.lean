import Mathlib.Data.List.Basic
import SemanticChecker.Check.Program
import SemanticChecker.Proofs.CallTarget

/-! The limit on diagnostics decides what is shown and nothing else. A log under a limit is a function of the stream of
everything that was reported, and the stream is the same under every limit: of the options, the check of bodies reads
only the kinds of literals, and whether the guard reports depends on the stream before it. -/
namespace SemanticChecker

open List

namespace DiagnosticLog

/-- The log of a stream under a limit: the first diagnostics, as many as the limit lets through, and one notice if there
are more. -/
def kept (limit : Nat) (stream : List Diagnostic) : DiagnosticLog where
  limit := some limit
  entries := stream.take limit ++ if limit < stream.length then [limitNotice limit] else []
  suppressed := stream.length - limit
  suppressedErrors := (stream.drop limit).countP Diagnostic.isError

section Kept

variable (limit : Nat) (stream : List Diagnostic)

/-- The notice takes a place past the limit, so a log that is full stays so. -/
theorem full_kept : (kept limit stream).full = decide (limit ≤ stream.length) := by
  simp only [full, kept, length_append, length_take]
  rcases Nat.lt_or_ge limit stream.length with more | few
  · simp [more]
    omega
  · rw [if_neg (Nat.not_lt.2 few), length_nil, Nat.add_zero, Nat.min_eq_right few]

theorem report_kept (d : Diagnostic) : (kept limit stream).report d = kept limit (stream ++ [d]) := by
  rw [report, full_kept]
  split
  · rename_i isFull
    have past : limit ≤ stream.length := of_decide_eq_true isFull
    simp only [suppress, kept, take_append_of_le_length past, drop_append_of_le_length past,
      length_append, length_singleton, countP_append, countP_singleton]
    congr 1
    · rcases Nat.lt_or_eq_of_le past with more | same
      · simp [more, Nat.lt_succ_of_lt more, Nat.sub_ne_zero_of_lt more]
      · simp [same]
    · omega
  · rename_i hasRoom
    have room : stream.length < limit := by simpa using hasRoom
    have fits : (stream ++ [d]).length ≤ limit := by simpa using Nat.succ_le_of_lt room
    have before := Nat.le_of_lt room
    simp only [kept, take_of_length_le fits, drop_of_length_le fits, take_of_length_le before,
      drop_of_length_le before, if_neg (Nat.not_lt.2 fits), if_neg (Nat.not_lt.2 before), append_nil,
      Nat.sub_eq_zero_of_le fits, Nat.sub_eq_zero_of_le before]

theorem reportAll_kept (ds : List Diagnostic) : (kept limit stream).reportAll ds = kept limit (stream ++ ds) := by
  induction ds generalizing stream with
  | nil => simp
  | cons d ds ih =>
    change ((kept limit stream).report d).reportAll ds = _
    rw [report_kept, ih, List.append_assoc]
    rfl

theorem errorCount_kept : (kept limit stream).errorCount = stream.countP Diagnostic.isError := by
  have notice : (if limit < stream.length then [limitNotice limit] else []).countP Diagnostic.isError = 0 := by
    split <;> rfl
  rw [errorCount, kept, countP_append, notice, Nat.add_zero, Nat.add_comm, ← countP_append,
    take_append_drop]

theorem hasErrors_eq_countP (log : DiagnosticLog) : log.hasErrors = decide (0 < log.errorCount) := by
  rw [hasErrors, errorCount, Bool.eq_iff_iff]
  simp only [Bool.or_eq_true, decide_eq_true_eq, any_eq_true, Nat.add_pos_iff_pos_or_pos, countP_pos_iff]

theorem hasErrors_kept : (kept limit stream).hasErrors = stream.any Diagnostic.isError := by
  rw [hasErrors_eq_countP, errorCount_kept, Bool.eq_iff_iff]
  simp only [decide_eq_true_eq, countP_pos_iff, any_eq_true]

/-- A run without errors has warnings if it reported anything at all: what is not kept leaves the notice, which is one. -/
theorem hasWarnings_kept (noErrors : stream.any Diagnostic.isError = false) :
    (kept limit stream).hasWarnings = !stream.isEmpty := by
  have warning : ∀ d ∈ stream, (d.level == .warning) = true := by
    intro d mem
    have harmless : d.isError = false := by simpa using any_eq_false.1 noErrors d mem
    rw [Diagnostic.isError] at harmless
    cases isLevel : d.level with
    | error => simp [isLevel] at harmless
    | warning => rfl
  rw [hasWarnings, kept, any_append]
  cases stream with
  | nil => simp
  | cons first rest =>
    cases limit with
    | zero => rfl
    | succ limit => simp [take_succ_cons, warning first mem_cons_self]

end Kept

end DiagnosticLog

/-! What bodies read of the options. -/

/-- The context with all options as they are by default, but for the kinds of literals. -/
def CheckContext.plain (ctx : CheckContext) : CheckContext :=
  { ctx with options :=
      { defaultInteger := ctx.options.defaultInteger, defaultFloat := ctx.options.defaultFloat } }

def BodyContext.plain (body : BodyContext) : BodyContext :=
  { body with program := body.program.plain }

theorem CheckContext.isAssignable_plain (ctx : CheckContext) : ctx.plain.isAssignable = ctx.isAssignable := by
  delta isAssignable
  rfl

namespace BodyContext

variable (body : BodyContext)

theorem expectAssignable_plain : body.plain.expectAssignable = body.expectAssignable := by
  delta expectAssignable
  simp only [plain, CheckContext.isAssignable_plain]
  rfl

theorem expectStored_plain : body.plain.expectStored = body.expectStored := by
  delta expectStored
  rw [expectAssignable_plain]

theorem bindTypeArguments_plain : body.plain.bindTypeArguments = body.bindTypeArguments := by
  delta bindTypeArguments
  rfl

theorem openTarget_plain : body.plain.openTarget = body.openTarget := by
  delta openTarget openCall
  rw [bindTypeArguments_plain]
  rfl

theorem acceptArgument_plain : body.plain.acceptArgument = body.acceptArgument := by
  delta acceptArgument
  simp only [plain, CheckContext.isAssignable_plain]
  rfl

theorem unifyBound_plain : body.plain.unifyBound = body.unifyBound := by
  delta unifyBound
  rfl

theorem boundPass_plain (span : Span) (call : OpenCall) (goals : List BoundGoal) :
    body.plain.boundPass span call goals = body.boundPass span call goals := by
  induction goals generalizing call with
  | nil => rfl
  | cons goal rest ih =>
    simp only [boundPass, meetGoal, ih, unifyBound_plain]
    rfl

theorem boundPasses_plain (span : Span) (passes : Nat) (call : OpenCall) (goals : List BoundGoal) :
    body.plain.boundPasses span passes call goals = body.boundPasses span passes call goals := by
  induction passes generalizing call goals with
  | zero => rfl
  | succ passes ih => simp only [boundPasses, ih, boundPass_plain]

theorem foundTypeArguments_plain : body.plain.foundTypeArguments = body.foundTypeArguments := by
  delta foundTypeArguments
  rfl

theorem closeTarget_plain : body.plain.closeTarget = body.closeTarget := by
  delta closeTarget closeCall
  simp only [boundPasses_plain, foundTypeArguments_plain]

theorem checkOperator_plain : body.plain.checkOperator = body.checkOperator := by
  delta checkOperator
  simp only [plain, CheckContext.isAssignable_plain]
  rfl

theorem joinBranches_plain : body.plain.joinBranches = body.joinBranches := by
  delta joinBranches
  rw [expectAssignable_plain]

theorem bindingType_plain : body.plain.bindingType = body.bindingType := by
  delta bindingType
  rw [expectAssignable_plain]
  rfl

theorem callTarget_plain {env : Env} {callee : Expr}
    (checks : checkExpr body.plain env (.value none) callee.subject = checkExpr body env (.value none) callee.subject)
    (span : Span) : body.plain.callTarget env span callee = body.callTarget env span callee := by
  obtain ⟨kind, calleeSpan⟩ := callee
  cases kind with
  | _ =>
    simp only [callTarget, Expr.subject] at checks ⊢
    rw [checks]
    rfl

mutual

/-- By induction on the source: the only options that are read are the kinds of literals, and these are kept. -/
theorem checkExpr_plain : ∀ (e : Expr) (env : Env) (mode : Mode),
    checkExpr body.plain env mode e = checkExpr body env mode e
  | ⟨.literal value, span⟩, env, mode => rfl
  | ⟨.tuple items, span⟩, env, mode => by simp only [checkExpr, checkEach_plain items]
  | ⟨.list items, span⟩, env, mode => by
    simp only [checkExpr, checkElements_plain items]
    rfl
  | ⟨.dict entries, span⟩, env, mode => by
    simp only [checkExpr, checkEntries_plain entries]
    rfl
  | ⟨.ident name, span⟩, env, mode => rfl
  | ⟨.assign target value, span⟩, env, mode => by
    simp only [checkExpr, checkExpr_plain target, checkExpr_plain value, expectAssignable_plain]
    rfl
  | ⟨.call ⟨kind, calleeSpan⟩ typeArguments arguments, span⟩, env, mode => by
    have value : checkExpr body.plain env (.value none) (Expr.subject ⟨kind, calleeSpan⟩) =
        checkExpr body env (.value none) (Expr.subject ⟨kind, calleeSpan⟩) := by
      cases kind with
      | _ => exact checkExpr_plain _ env _
    rw [checkExpr_call, checkExpr_call, callTarget_plain body value]
    refine bind_congr fun target => ?_
    simp only [checkCall, openTarget_plain, checkArguments_plain arguments, closeTarget_plain]
  | ⟨.field object name, span⟩, env, mode => by
    simp only [checkExpr, checkExpr_plain object]
    rfl
  | ⟨.binary operator left right, span⟩, env, mode => by
    simp only [checkExpr, checkExpr_plain left, checkExpr_plain right, expectAssignable_plain, checkOperator_plain]
  | ⟨.cond condition thenBranch none, span⟩, env, mode => by
    cases mode with
    | statement =>
      simp only [checkExpr, checkExpr_plain condition, checkStatements_plain thenBranch, expectAssignable_plain]
    | value expected =>
      simp only [checkExpr, checkExpr_plain condition, checkStatements_plain thenBranch, expectAssignable_plain]
      rfl
  | ⟨.cond condition thenBranch (some elseBranch), span⟩, env, mode => by
    cases mode <;>
      simp only [checkExpr, checkExpr_plain condition, checkStatements_plain thenBranch,
        checkStatements_plain elseBranch, expectAssignable_plain, joinBranches_plain]

theorem checkEach_plain : ∀ (items : List Expr) (env : Env) (slots : List Ty),
    checkEach body.plain env slots items = checkEach body env slots items
  | [], _, _ => rfl
  | item :: rest, env, slots => by simp only [checkEach, checkExpr_plain item, checkEach_plain rest]

theorem checkElements_plain : ∀ (items : List Expr) (env : Env) (element : Option Ty),
    checkElements body.plain env element items = checkElements body env element items
  | [], _, _ => rfl
  | item :: rest, env, element => by
    simp only [checkElements, checkExpr_plain item, checkElements_plain rest, expectStored_plain]

theorem checkEntries_plain : ∀ (entries : List (Expr × Expr)) (env : Env) (key value : Option Ty),
    checkEntries body.plain env key value entries = checkEntries body env key value entries
  | [], _, _, _ => rfl
  | (keyExpr, valueExpr) :: rest, env, key, value => by
    simp only [checkEntries, checkExpr_plain keyExpr, checkExpr_plain valueExpr, checkEntries_plain rest,
      expectStored_plain]

theorem checkArguments_plain : ∀ (arguments : List Expr) (env : Env) (call : Option OpenCall) (position : Nat)
    (params : List Ty), checkArguments body.plain env call position params arguments =
      checkArguments body env call position params arguments
  | [], _, _, _, _ => rfl
  | argument :: rest, env, call, position, params => by
    simp only [checkArguments, checkExpr_plain argument, checkArguments_plain rest, acceptArgument_plain]
    rfl

theorem checkStatements_plain : ∀ (statements : List Statement) (env : Env) (mode : Mode),
    checkStatements body.plain env mode statements = checkStatements body env mode statements
  | [], _, _ => rfl
  | first :: rest, env, mode => by
    simp only [checkStatements, checkStatement_plain first, checkStatements_plain rest]

theorem checkStatement_plain : ∀ (statement : Statement) (env : Env) (mode : Mode),
    checkStatement body.plain env mode statement = checkStatement body env mode statement
  | .bind name type initializer span, env, mode => by
    simp only [checkStatement, checkOption_plain initializer, bindingType_plain]
    rfl
  | .expression value, env, mode => by simp only [checkStatement, checkExpr_plain value]
  | .ret value span, env, mode => by
    simp only [checkStatement, checkOption_plain value, expectAssignable_plain]
    rfl

theorem checkOption_plain : ∀ (value : Option Expr) (env : Env) (mode : Mode),
    checkOption body.plain env mode value = checkOption body env mode value
  | none, _, _ => rfl
  | some value, env, mode => by simp only [checkOption, checkExpr_plain value]

end

theorem checkFunction_plain (decl : FunctionDecl) (signature : Signature) (receiver : Option Ty) :
    body.plain.checkFunction decl signature receiver = body.checkFunction decl signature receiver := by
  cases isBody : decl.body with
  | none => simp only [checkFunction, isBody]
  | some block =>
    have statements := fun result => checkStatements_plain { body with result } block
    have assignable := fun result => expectAssignable_plain { body with result }
    simp only [plain] at statements assignable
    simp only [checkFunction, isBody, checkFunctionBody, checkBlock, checkResult, plain, statements, assignable]
    rfl

theorem checkDefaults_plain (fields : List (FieldDecl × FieldDef)) :
    body.plain.checkDefaults fields = body.checkDefaults fields := by
  induction fields with
  | nil => rfl
  | cons field rest ih =>
    simp only [checkDefaults, checkDefault, checkExpr_plain, expectAssignable_plain, ih]

theorem checkMethods_plain (own : StructDef) (methods : List (FunctionDecl × MethodDef)) :
    body.plain.checkMethods own methods = body.checkMethods own methods := by
  induction methods with
  | nil => rfl
  | cons method rest ih =>
    have function := fun typeParameters => checkFunction_plain { body with typeParameters }
    simp only [plain] at function ih
    simp only [checkMethods, plain, function, ih]
    rfl

end BodyContext

namespace CheckContext

variable (ctx : CheckContext)

theorem checkFunction_plain (own : FunctionDef) : ctx.plain.checkFunction own = ctx.checkFunction own := by
  have function := BodyContext.checkFunction_plain
    { program := ctx, module := own.module, typeParameters := own.signature.typeParameters }
  simp only [BodyContext.plain] at function
  simp only [checkFunction, function]

theorem checkStruct_plain (own : StructDef) : ctx.plain.checkStruct own = ctx.checkStruct own := by
  let body : BodyContext := { program := ctx, module := own.module, typeParameters := own.typeParameters }
  have defaults := body.checkDefaults_plain
  have methods := body.checkMethods_plain own
  simp only [body, BodyContext.plain] at defaults methods
  simp only [checkStruct, defaults, methods]
  rfl

theorem checkStructs_plain (owns : List StructDef) : ctx.plain.checkStructs owns = ctx.checkStructs owns := by
  induction owns with
  | nil => rfl
  | cons own rest ih => simp only [checkStructs, checkStruct_plain, ih]

theorem checkFunctions_plain (owns : List FunctionDef) : ctx.plain.checkFunctions owns = ctx.checkFunctions owns := by
  induction owns with
  | nil => rfl
  | cons own rest ih => simp only [checkFunctions, checkFunction_plain, ih]

theorem checkBodies_plain : ctx.plain.checkBodies = ctx.checkBodies := by
  simp only [checkBodies, checkStructs_plain, checkFunctions_plain]
  rfl

end CheckContext

namespace CheckReport

variable (options : CheckOptions) (units : List SourceUnit)

/-- What the stages of a check report, in order, before the program is guarded. -/
def stages : List Diagnostic :=
  let collected := Collected.ofUnits .standard units
  let context := (unguarded options units).context
  collected.diagnostics ++ context.compositions.diagnostics context.table ++
    collected.pending.flatMap context.checkPending ++ (context.checkBodies.run {}).2.diagnostics

/-- The report of the guard. It has none about a program in which errors are reported. -/
def guarded : List Diagnostic :=
  match (unguarded options units).program.findUnresolved? with
  | some site =>
    if (stages options units).any Diagnostic.isError then []
    else [unresolvedNotice (unguarded options units).context.names site]
  | none => []

/-- Everything that a check reports, in order. -/
def stream : List Diagnostic :=
  stages options units ++ guarded options units

variable {options units}

theorem log_unguarded :
    (unguarded options units).log = .kept options.maxDiagnostics (stages options units) := by
  have start : ({ limit := some options.maxDiagnostics } : DiagnosticLog) = .kept options.maxDiagnostics [] := by
    simp [DiagnosticLog.kept]
  simp only [unguarded, start, DiagnosticLog.reportAll_kept]
  rfl

theorem log_ofUnits : (ofUnits options units).log = .kept options.maxDiagnostics (stream options units) := by
  change guard _ _ (unguarded options units).log = _
  rw [guard, log_unguarded, DiagnosticLog.hasErrors_kept, stream, guarded]
  cases (unguarded options units).program.findUnresolved? with
  | none => rw [append_nil]
  | some site =>
    dsimp only
    split
    · rw [append_nil]
    · exact DiagnosticLog.report_kept ..

theorem checkBodies_limit (limit : Nat) :
    (unguarded { options with maxDiagnostics := limit } units).context.checkBodies =
      (unguarded options units).context.checkBodies := by
  rw [← CheckContext.checkBodies_plain, ← CheckContext.checkBodies_plain (unguarded options units).context]
  rfl

theorem program_limit (limit : Nat) :
    (unguarded { options with maxDiagnostics := limit } units).program = (unguarded options units).program :=
  congrArg (fun bodies => (bodies.run {}).1) (checkBodies_limit limit)

theorem stream_limit (limit : Nat) :
    stream { options with maxDiagnostics := limit } units = stream options units := by
  have same : stages { options with maxDiagnostics := limit } units = stages options units :=
    congrArg (fun bodies => _ ++ (bodies.run {}).2.diagnostics) (checkBodies_limit limit)
  rw [stream, stream, guarded, guarded, same, program_limit]
  rfl

theorem isEligible_ofUnits : (ofUnits options units).isEligible =
    (!(stream options units).any Diagnostic.isError &&
      !(options.warningsAsErrors && !(stream options units).isEmpty)) := by
  have asked : (ofUnits options units).context.options.warningsAsErrors = options.warningsAsErrors := rfl
  rw [isEligible, log_ofUnits, asked, DiagnosticLog.hasErrors_kept]
  cases noErrors : (stream options units).any Diagnostic.isError with
  | true => rfl
  | false => rw [DiagnosticLog.hasWarnings_kept _ _ noErrors]

variable (options units)

/-- Under any two limits a check answers the same program, counts the same errors and comes to the same verdict,
whether or not warnings count as errors. What is reported does not depend on the limit either, and of that the log
keeps the first diagnostics up to the limit. Where there are more it ends with one notice, and tells how many are
missing. -/
theorem verdict_under_limit (limit : Nat) :
    let report := ofUnits options units
    let limited := ofUnits { options with maxDiagnostics := limit } units
    limited.program = report.program ∧ limited.log.errorCount = report.log.errorCount ∧
    limited.isEligible = report.isEligible ∧
    stream { options with maxDiagnostics := limit } units = stream options units ∧
    limited.log.entries = (stream options units).take limit ++
      (if limit < (stream options units).length then [DiagnosticLog.limitNotice limit] else []) ∧
    limited.log.suppressed = (stream options units).length - limit := by
  intro report limited
  have log : limited.log = .kept limit (stream options units) := by rw [log_ofUnits, stream_limit]
  refine ⟨program_limit limit, ?_, ?_, stream_limit limit, by rw [log]; rfl, by rw [log]; rfl⟩
  · rw [log, log_ofUnits, DiagnosticLog.errorCount_kept, DiagnosticLog.errorCount_kept]
  · rw [isEligible_ofUnits, isEligible_ofUnits, stream_limit]

end CheckReport

end SemanticChecker
