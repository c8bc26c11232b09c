import SemanticChecker.Check.Declaration
import SemanticChecker.Declared.Collect
import SemanticChecker.Diagnostic.Log
import SemanticChecker.Typed.Unresolved

/-! The check of a whole program: its declarations, its compositions, the bounds that waited for them,
and its bodies. -/
namespace SemanticChecker

structure CheckReport where
  context : CheckContext
  program : TypedProgram
  log : DiagnosticLog

structure Ineligible where
  errors : Nat
  diagnostics : Nat
  deriving DecidableEq, Repr

def Ineligible.message (refusal : Ineligible) : String :=
  s!"type checking failed with {refusal.errors} error(s) and " ++
    s!"{refusal.diagnostics} diagnostic(s) in total"

namespace CheckReport

/-- The report of a type that has no meaning in a program without errors. -/
def unresolvedNotice (names : TypeNames) (site : TypeSite) : Diagnostic :=
  { code := .internal
    message := s!"unresolved type {site.type.describe names} reached the typed program"
    span := some site.span }

/-- Guards a program without errors against types that must not reach code generation. -/
def guard (names : TypeNames) (program : TypedProgram) (log : DiagnosticLog) : DiagnosticLog :=
  match program.findUnresolved? with
  | some site => if log.hasErrors then log else log.report (unresolvedNotice names site)
  | none => log

def unguarded (options : CheckOptions) (units : List SourceUnit) : CheckReport :=
  let collected := Collected.ofUnits .standard units
  let table := collected.declared.table
  let compositions := Compositions.ofTable table
  let context : CheckContext :=
    { declared := collected.declared, bounds := .standard, compositions, options }
  let (program, bodies) := context.checkBodies.run {}
  let log : DiagnosticLog := { limit := some options.maxDiagnostics }
  let log := log.reportAll collected.diagnostics
  let log := log.reportAll (compositions.diagnostics table)
  let log := log.reportAll (collected.pending.flatMap context.checkPending)
  let log := log.reportAll bodies.diagnostics
  { context, program, log }

def ofUnits (options : CheckOptions) (units : List SourceUnit) : CheckReport :=
  let report := unguarded options units
  { report with log := guard report.context.names report.program report.log }

def isEligible (report : CheckReport) : Bool :=
  !report.log.hasErrors && !(report.context.options.warningsAsErrors && report.log.hasWarnings)

def eligibleProgram (report : CheckReport) : Except Ineligible TypedProgram :=
  if report.isEligible then .ok report.program
  else .error ⟨report.log.errorCount, report.log.entries.length⟩

end CheckReport

end SemanticChecker
