import SemanticChecker.Declared.Table

/-! Groups structs that are linked through composition. Structs of different groups have no influence
on each other. -/
namespace SemanticChecker

/-- A label for every struct; structs of one group have one label. -/
abbrev Labels := List Nat

namespace Labels

def get (labels : Labels) (node : Nat) : Nat :=
  (labels[node]?).getD node

def join (labels : Labels) (a b : Nat) : Labels :=
  let least := min (labels.get a) (labels.get b)
  let greatest := max (labels.get a) (labels.get b)
  labels.map fun label => if label = greatest then least else label

end Labels

namespace DeclTable

def links (table : DeclTable) : List (Nat × Nat) :=
  table.structs.flatMap fun own => own.shape.composes.map fun parent => (own.id.index, parent.id.index)

def labels (table : DeclTable) : Labels :=
  table.links.foldl (fun labels (a, b) => labels.join a b) (List.range table.structs.length)

/-- The groups, ordered by their first members; the label of a group is its first member. -/
def components (table : DeclTable) : List (List StructId) :=
  let labelled := table.labels.zipIdx
  let firsts := labelled.filter fun (label, node) => label = node
  firsts.map fun (first, _) =>
    (labelled.filter fun (label, _) => label = first).map fun (_, node) => ⟨node⟩

end DeclTable

end SemanticChecker
