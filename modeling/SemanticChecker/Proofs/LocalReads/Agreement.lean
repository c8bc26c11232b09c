import SemanticChecker.Proofs.Flow.WellFormed
import SemanticChecker.Proofs.Mirror.Program

/-! The check of types and the flow analysis agree on locals. Each walks a body with a scope of its own; the names that
the first takes for locals, where they are read, are the uses that the second puts into the flow graph. -/
namespace SemanticChecker

/-- Whether every name in a typed block is taken for the local in scope, if there is one, and the reads of locals are the
uses in the flow graph of the block in the source. -/
structure TypedBlock.Tracked (env : Env) (parameters : List (String × Span)) (block : TypedBlock) (source : Block) :
    Prop where
  resolved : ∀ use ∈ block.names env, use.Resolved
  uses : ((block.names env).filterMap NameUse.read?).Perm (FlowGraph.ofBody parameters source).localReads

/-- Whether the body is missing in the source as well, or tracked. At its start the parameters are in scope and, in a
method, the receiver. -/
def TypedFunction.Tracked (receiver : Option Ty) (decl : FunctionDecl) (function : TypedFunction) : Prop :=
  Option.Rel (TypedBlock.Tracked (function.params.reverse ++ receiver.toList.map fun t => ("self", t))
    (BodyContext.startParameters receiver decl)) function.body decl.body

namespace BodyContext

theorem names_startParameters (receiver : Option Ty) {signature : Signature} {decl : FunctionDecl}
    (spelled : signature.params.map (·.1) = decl.parameters.map (·.name)) :
    ((startParameters receiver decl).map (·.1)).reverse = (startEnv receiver signature).locals := by
  rw [locals_startEnv receiver spelled]
  cases receiver <;> simp [startParameters]

theorem checkFunction_tracked (body : BodyContext) (decl : FunctionDecl) {signature : Signature} (receiver : Option Ty)
    (spelled : signature.params.map (·.1) = decl.parameters.map (·.name)) :
    Finds (body.checkFunction decl signature receiver) fun block => Option.Rel
      (TypedBlock.Tracked (startEnv receiver signature) (startParameters receiver decl)) block decl.body := by
  cases isBody : decl.body with
  | none =>
    rw [checkFunction, isBody]
    exact .pure .none
  | some block =>
    rw [checkFunction, isBody]
    refine (checkFunctionBody_renders _ _ _ _ _ block).bind fun typed renders => .pure ?_
    refine .some ⟨renders.reads.resolved, ?_⟩
    have uses := FlowGraph.localReads_ofBody (startParameters receiver decl) block
    rw [names_startParameters receiver spelled] at uses
    rw [renders.reads.reads]
    exact uses.symm

theorem checkMethods_tracked (body : BodyContext) (own : StructDef) : ∀ {decls : List FunctionDecl}
    {methods : List MethodDef}, List.Forall₂ MethodDef.Spells decls methods →
      Finds (body.checkMethods own (decls.zip methods))
        (List.Forall₂ (TypedFunction.Tracked (some own.selfType)) decls)
  | [], [], .nil => .pure .nil
  | decl :: decls, method :: methods, .cons spelled rest => by
    refine (checkFunction_tracked _ decl (some own.selfType) spelled.params).bind fun block tracked => ?_
    exact (body.checkMethods_tracked own rest).bind fun typed more => .pure (.cons tracked more)

end BodyContext

namespace CheckReport

/-- In every run, with errors or without, each function and each method that is entered has a typed counterpart in
which every name has the type of the local of that name in scope, or the error type if there is none. Of these names,
those of locals that no assignment writes to are, with their places, the uses in all blocks of the flow graph that is
built from the same parameters and the same body. -/
theorem reads_tracked (options : CheckOptions) (units : List SourceUnit) :
    let report := ofUnits options units
    List.Forall₂ (fun own => TypedFunction.Tracked none own.decl) report.context.table.functions
      report.program.functions ∧
    List.Forall₂ (fun own (struct : TypedStruct) =>
      List.Forall₂ (TypedFunction.Tracked (some own.selfType)) own.decl.methods struct.methods)
        report.context.table.structs report.program.structs := by
  intro report
  let context := (unguarded options units).context
  have functions : Finds (context.table.functions.mapM context.checkFunction)
      (List.Forall₂ (fun own => TypedFunction.Tracked none own.decl) context.table.functions) :=
    .mapM fun own mem => CheckM.inSource_finds ((BodyContext.checkFunction_tracked _ own.decl
      none (functions_spelled options units own mem)).bind fun _ tracked => .pure tracked) own.unit
  have structs : Finds (context.table.structs.mapM context.checkStruct) (List.Forall₂ (fun own (struct : TypedStruct) =>
      List.Forall₂ (TypedFunction.Tracked (some own.selfType)) own.decl.methods struct.methods) context.table.structs) :=
    .mapM fun own mem => CheckM.inSource_finds (.after fun _ => (BodyContext.checkMethods_tracked _ own
      (structs_spelled options units own mem)).bind fun _ tracked => .pure tracked) own.unit
  rw [← context.checkFunctions_eq_mapM] at functions
  rw [← context.checkStructs_eq_mapM] at structs
  exact ⟨functions (context.checkStructs context.table.structs |>.run {}).2, structs {}⟩

end CheckReport

end SemanticChecker
