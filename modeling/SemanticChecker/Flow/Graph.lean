import SemanticChecker.Flow.NoneState
import SemanticChecker.Source.Span

/-! The flow graph of a body: blocks of operations on bindings and the ways from one block to the next.
Every declaration of a name has a binding of its own. -/
namespace SemanticChecker

structure BlockId where
  index : Nat
  deriving DecidableEq, Repr

structure BindingId where
  index : Nat
  deriving DecidableEq, Repr

/-- Where a value comes from, as far as None is concerned. -/
inductive ValueSource where
  | none
  | notNone
  | binding (id : BindingId)
  deriving DecidableEq, Repr

inductive FlowOp where
  /-- A declaration, with the value it starts with if it has one. -/
  | declare (binding : BindingId) (value : Option ValueSource)
  | assign (binding : BindingId) (value : ValueSource)
  /-- What a comparison with None tells about a binding. -/
  | assume (binding : BindingId) (state : NoneState)
  | use (binding : BindingId) (kind : UseKind) (span : Span)
  deriving DecidableEq, Repr

structure FlowBlock where
  ops : List FlowOp := []
  successors : List BlockId := []
  deriving DecidableEq, Repr

structure FlowBinding where
  name : String
  span : Span
  deriving DecidableEq, Repr

structure FlowGraph where
  blocks : List FlowBlock := [{}, {}]
  bindings : List FlowBinding := []

namespace FlowGraph

def entry : BlockId := ⟨0⟩

def exit : BlockId := ⟨1⟩

def block (graph : FlowGraph) (id : BlockId) : FlowBlock :=
  (graph.blocks[id.index]?).getD {}

def bindingName (graph : FlowGraph) (id : BindingId) : String :=
  match graph.bindings[id.index]? with
  | some binding => binding.name
  | none => ""

def bindingNamed? (graph : FlowGraph) (name : String) : Option BindingId :=
  (graph.bindings.zipIdx.reverse.find? fun (binding, _) => binding.name == name).map fun (_, index) => ⟨index⟩

def predecessors (graph : FlowGraph) (id : BlockId) : List BlockId :=
  (graph.blocks.zipIdx.filter fun (block, _) => block.successors.contains id).map fun (_, index) => ⟨index⟩

def addBlock (graph : FlowGraph) : FlowGraph × BlockId :=
  ({ graph with blocks := graph.blocks ++ [{}] }, ⟨graph.blocks.length⟩)

def addBinding (graph : FlowGraph) (name : String) (span : Span) : FlowGraph × BindingId :=
  ({ graph with bindings := graph.bindings ++ [⟨name, span⟩] }, ⟨graph.bindings.length⟩)

def addEdge (graph : FlowGraph) (source target : BlockId) : FlowGraph :=
  { graph with blocks := graph.blocks.modify source.index fun block =>
      if target ∈ block.successors then block
      else { block with successors := block.successors ++ [target] } }

def addOp (graph : FlowGraph) (id : BlockId) (op : FlowOp) : FlowGraph :=
  { graph with blocks := graph.blocks.modify id.index fun block =>
      { block with ops := block.ops ++ [op] } }

end FlowGraph

end SemanticChecker
