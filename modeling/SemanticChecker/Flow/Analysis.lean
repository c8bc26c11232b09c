import SemanticChecker.Diagnostic
import SemanticChecker.Flow.Graph

/-! Finds uses of bindings that are None or not assigned. States flow forward through the graph until
no block learns anything new at its start; every reachable block is then gone through once more. -/
namespace SemanticChecker

abbrev FlowState := List NoneState

namespace FlowState

def get (state : FlowState) (binding : BindingId) : NoneState :=
  (state[binding.index]?).getD .unknown

def value (state : FlowState) : ValueSource → NoneState
  | .none => .definitelyNone
  | .notNone => .definitelyNotNone
  | .binding id => state.get id

def apply (state : FlowState) : FlowOp → FlowState
  | .declare binding none => state.set binding.index .unknown
  | .declare binding (some source) => state.set binding.index (state.value source)
  | .assign binding source => state.set binding.index (state.value source)
  | .assume binding known => state.set binding.index known
  | .use _ _ _ => state

def applyAll (state : FlowState) (ops : List FlowOp) : FlowState :=
  ops.foldl apply state

def join (a b : FlowState) : FlowState :=
  List.zipWith NoneState.join a b

end FlowState

/-- What is known at the start of every block; nothing for a block that was not reached. -/
abbrev FlowEntries := List (Option FlowState)

namespace FlowEntries

def get (entries : FlowEntries) (block : BlockId) : Option FlowState :=
  (entries[block.index]?).join

/-- Brings a state to the start of a block; the block is named if it learns something. -/
def flowTo (entries : FlowEntries) (state : FlowState) (block : BlockId) : FlowEntries × List BlockId :=
  let merged := match entries.get block with
    | some existing => existing.join state
    | none => state
  if entries.get block = some merged then (entries, [])
  else (entries.set block.index (some merged), [block])

def flowToAll (entries : FlowEntries) (state : FlowState) : List BlockId → FlowEntries × List BlockId
  | [] => (entries, [])
  | block :: rest =>
    let (entries, changed) := entries.flowTo state block
    let (entries, more) := entries.flowToAll state rest
    (entries, changed ++ more)

/-- Goes through blocks that have learnt something, the oldest first. -/
def propagate (graph : FlowGraph) : Nat → FlowEntries → List BlockId → FlowEntries
  | 0, entries, _ => entries
  | _ + 1, entries, [] => entries
  | steps + 1, entries, id :: rest =>
    match entries.get id with
    | none => propagate graph steps entries rest
    | some state =>
      let block := graph.block id
      let (entries, changed) := entries.flowToAll (state.applyAll block.ops) block.successors
      propagate graph steps entries (rest ++ changed)

/-- Nothing is known of any binding at the start of a body, and no other block is reached yet. -/
def initial (graph : FlowGraph) : FlowEntries :=
  (List.replicate graph.blocks.length none).set FlowGraph.entry.index
    (some (List.replicate graph.bindings.length .unknown))

/-- What is known at the start of every block. A block learns that it is reached, and of each binding
once that it may be None, which bounds the steps. -/
def ofGraph (graph : FlowGraph) : FlowEntries :=
  propagate graph (graph.blocks.length * (graph.bindings.length + 1) + 1) (initial graph) [FlowGraph.entry]

end FlowEntries

/-- A use of a binding and what is known there. -/
structure Observation where
  binding : BindingId
  state : NoneState
  kind : UseKind
  span : Span
  deriving DecidableEq, Repr

structure FlowViolation where
  binding : BindingId
  name : String
  state : NoneState
  kind : UseKind
  span : Span
  deriving DecidableEq, Repr

namespace FlowViolation

def code (violation : FlowViolation) : DiagnosticCode :=
  match violation.state with
  | .unknown => .useBeforeAssignment
  | .definitelyNone => .noneUseError
  | _ => .noneUseWarning

def message (violation : FlowViolation) : String :=
  let name := violation.name
  let used := violation.kind.describe
  match violation.state with
  | .unknown => s!"'{name}' is used before it is assigned"
  | .definitelyNone => s!"'{name}' is None when {used}"
  | _ => s!"'{name}' may be None when {used}"

def diagnostic (violation : FlowViolation) : Diagnostic :=
  { code := violation.code, message := violation.message, span := some violation.span }

/-- Whether one violation comes before another in the source, or at the same place. -/
def notAfter (a b : FlowViolation) : Bool :=
  a.span.line < b.span.line || (a.span.line == b.span.line && a.span.column ≤ b.span.column)

end FlowViolation

def observe (state : FlowState) : List FlowOp → List Observation
  | [] => []
  | .use binding kind span :: rest => ⟨binding, state.get binding, kind, span⟩ :: observe state rest
  | op :: rest => observe (state.apply op) rest

structure FlowAnalysis where
  graph : FlowGraph
  entries : FlowEntries

namespace FlowAnalysis

def ofGraph (graph : FlowGraph) : FlowAnalysis :=
  ⟨graph, FlowEntries.ofGraph graph⟩

def stateAt (analysis : FlowAnalysis) (block : BlockId) (index : Nat) : Option FlowState :=
  (analysis.entries.get block).map fun state =>
    state.applyAll ((analysis.graph.block block).ops.take index)

def atExit (analysis : FlowAnalysis) (binding : BindingId) : Option NoneState := do
  let state ← analysis.entries.get FlowGraph.exit
  state[binding.index]?

def isReachable (analysis : FlowAnalysis) (block : BlockId) : Bool :=
  (analysis.entries.get block).isSome

def observations (analysis : FlowAnalysis) : List Observation :=
  (analysis.graph.blocks.zip analysis.entries).flatMap fun (block, entry) =>
    match entry with
    | some state => observe state block.ops
    | none => []

def violations (analysis : FlowAnalysis) : List FlowViolation :=
  let found := analysis.observations.filter fun o => o.state.forbids o.kind
  let named := found.map fun o => ⟨o.binding, analysis.graph.bindingName o.binding, o.state, o.kind, o.span⟩
  named.mergeSort FlowViolation.notAfter

def diagnostics (analysis : FlowAnalysis) : List Diagnostic :=
  analysis.violations.map FlowViolation.diagnostic

end FlowAnalysis

end SemanticChecker
