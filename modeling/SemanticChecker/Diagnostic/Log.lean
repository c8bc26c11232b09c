import SemanticChecker.Diagnostic

/-! The diagnostics of a run in order, with a limit on how many are kept. What is not kept is still
counted, so that the limit decides what is shown and never whether the run failed. -/
namespace SemanticChecker

structure DiagnosticLog where
  limit : Option Nat := none
  entries : List Diagnostic := []
  suppressed : Nat := 0
  suppressedErrors : Nat := 0

namespace DiagnosticLog

def limitNotice (limit : Nat) : Diagnostic :=
  { code := .diagnosticLimit, message := s!"too many diagnostics; stopped reporting after {limit}" }

def full (log : DiagnosticLog) : Bool :=
  match log.limit with
  | some limit => limit ≤ log.entries.length
  | none => false

/-- Counts a diagnostic that is not kept; the first such leaves the notice. -/
def suppress (log : DiagnosticLog) (d : Diagnostic) : DiagnosticLog :=
  let notice := if log.suppressed = 0 then log.limit.toList.map limitNotice else []
  { log with
    entries := log.entries ++ notice
    suppressed := log.suppressed + 1
    suppressedErrors := log.suppressedErrors + if d.isError then 1 else 0 }

def report (log : DiagnosticLog) (d : Diagnostic) : DiagnosticLog :=
  if log.full then log.suppress d else { log with entries := log.entries ++ [d] }

def reportAll (log : DiagnosticLog) (ds : List Diagnostic) : DiagnosticLog :=
  ds.foldl report log

def isEmpty (log : DiagnosticLog) : Bool :=
  log.entries.isEmpty

def hasErrors (log : DiagnosticLog) : Bool :=
  0 < log.suppressedErrors || log.entries.any Diagnostic.isError

def hasWarnings (log : DiagnosticLog) : Bool :=
  log.entries.any fun d => d.level == .warning

def errorCount (log : DiagnosticLog) : Nat :=
  log.suppressedErrors + log.entries.countP Diagnostic.isError

def countCode (log : DiagnosticLog) (code : DiagnosticCode) : Nat :=
  log.entries.countP fun d => d.code == code

@[simp] theorem reportAll_nil (log : DiagnosticLog) : log.reportAll [] = log := rfl

end DiagnosticLog

end SemanticChecker
