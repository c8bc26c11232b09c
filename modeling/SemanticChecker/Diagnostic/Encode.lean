import SemanticChecker.Diagnostic.Log
import SemanticChecker.Source.Encode

/-! Diagnostics as documents, for whoever shows them. -/
namespace SemanticChecker

def Span.toNumbers (span : Span) : Json :=
  .array [.natural span.line, .natural span.column, .natural span.endLine, .natural span.endColumn]

def DiagnosticLevel.name : DiagnosticLevel → String
  | error => "Error"
  | warning => "Warning"

def Diagnostic.toJson (d : Diagnostic) : Json :=
  .record [("code", .text d.code.name), ("level", .text d.level.name), ("message", .text d.message),
    ("span", .optional Span.toNumbers d.span),
    ("source", .optional (fun unit => .natural unit.number) d.source), ("text", .text d.text)]

def DiagnosticLog.toJson (log : DiagnosticLog) : Json :=
  .record [("entries", .array (log.entries.map Diagnostic.toJson)),
    ("suppressed", .natural log.suppressed), ("error_count", .natural log.errorCount),
    ("has_errors", .bool log.hasErrors), ("has_warnings", .bool log.hasWarnings),
    ("is_empty", .bool log.isEmpty)]

end SemanticChecker
