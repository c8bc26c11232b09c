import SemanticChecker.Composition.Components
import SemanticChecker.Composition.Merge

/-! Composes every struct by a search through the composition lists. A struct that is reached again
while it is being composed closes a cycle; every struct on the way is then on a cycle, too. -/
namespace SemanticChecker

structure CompositionSearch where
  memo : List (StructId × Resolution) := []
  /-- The structs being composed, the outermost first. -/
  stack : List StructId := []
  cyclic : List StructId := []
  /-- The sets of members of the cycles that are reported already, each in order. -/
  reported : List (List StructId) := []
  issues : List CompositionIssue := []

abbrev SearchM := StateM CompositionSearch

namespace SearchM

def noteCycle (members : List StructId) : SearchM Unit :=
  modify fun s =>
    let key := members.mergeSort fun a b => decide (a.index ≤ b.index)
    let s := if key ∈ s.reported then s
      else { s with reported := key :: s.reported, issues := s.issues ++ [.cycle members] }
    { s with cyclic := s.cyclic ++ members }

def push (id : StructId) : SearchM Unit :=
  modify fun s => { s with stack := s.stack ++ [id] }

def pop : SearchM Unit :=
  modify fun s => { s with stack := s.stack.dropLast }

def finish (id : StructId) (resolution : Resolution) (issues : List CompositionIssue) : SearchM Unit :=
  modify fun s => { s with memo := (id, resolution) :: s.memo, issues := s.issues ++ issues }

/-- The layouts of the parents that are not on a cycle, and the first cycle among the others. -/
def parents (resolve : StructId → SearchM Resolution) :
    List ComposedParent → SearchM (List (Ty × Layout) × Option (List StructId))
  | [] => return ([], none)
  | parent :: rest => do
    let resolution ← resolve parent.id
    let (layouts, tainted) ← parents resolve rest
    match resolution with
    | .cycle members _ => return (layouts, some members)
    | other => return ((parent.type, other.layout) :: layouts, tainted)

/-- Composes a struct and, before it, its parents. The number bounds how many structs are being
composed at once. -/
def resolve (table : DeclTable) : Nat → StructId → SearchM Resolution
  | 0, id => return .cycle [id] { id, name := table.names.struct id }
  | depth + 1, id => do
    let s ← get
    match s.memo.lookup id, table.struct? id with
    | some done, _ => return done
    | none, none => return .cycle [id] { id, name := table.names.struct id }
    | none, some own =>
      if id ∈ s.stack then
        let members := s.stack.dropWhile (· != id)
        noteCycle members
        return .cycle members own.ownLayout
      else
        push id
        let (layouts, tainted) ← parents (resolve table depth) own.shape.composes
        pop
        if id ∈ (← get).cyclic then
          let resolution := .cycle (tainted.getD [id]) own.ownLayout
          finish id resolution []
          return resolution
        else
          let (resolution, issues) := own.compose table layouts tainted.isSome
          finish id resolution issues
          return resolution

def resolveEach (table : DeclTable) : List StructId → SearchM Unit
  | [] => return ()
  | id :: rest => do
    discard <| resolve table (table.structs.length + 1) id
    resolveEach table rest

end SearchM

structure Compositions where
  resolutions : List (StructId × Resolution) := []
  issues : List CompositionIssue := []

namespace Compositions

def ofGroup (table : DeclTable) (group : List StructId) : Compositions :=
  let (_, s) := (SearchM.resolveEach table group).run {}
  ⟨s.memo, s.issues⟩

def ofTable (table : DeclTable) : Compositions :=
  let groups := table.components.map (ofGroup table)
  ⟨groups.flatMap (·.resolutions), groups.flatMap (·.issues)⟩

def find? (compositions : Compositions) (id : StructId) : Option Resolution :=
  compositions.resolutions.lookup id

def layout? (compositions : Compositions) (id : StructId) : Option Layout :=
  (compositions.find? id).map Resolution.layout

def isConcrete (compositions : Compositions) (id : StructId) : Bool :=
  match compositions.find? id with
  | some resolution => resolution.isConcrete
  | none => false

def diagnostics (compositions : Compositions) (table : DeclTable) : List Diagnostic :=
  compositions.issues.map (CompositionIssue.diagnostic table)

end Compositions

end SemanticChecker
