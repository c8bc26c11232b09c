import SemanticChecker.Proofs.Composition.Search

/-! The groups that structs fall into. Every struct is in one group, and a struct that composes another is
in its group. -/
namespace SemanticChecker

open List

namespace Labels

/-- The label of a group is the label of a member: of the one with that number. -/
def Rooted (labels : Labels) : Prop :=
  ∀ node label : Nat, labels[node]? = some label → labels[label]? = some label

theorem rooted_range (count : Nat) : Rooted (List.range count) := by
  intro node label found
  obtain ⟨bound, same⟩ := List.getElem?_eq_some_iff.1 found
  rw [getElem_range] at same
  rw [← same]
  exact found.trans (congrArg some same.symm)

theorem Rooted.get {labels : Labels} (h : labels.Rooted) (node : Nat) :
    labels[labels.get node]? = some (labels.get node) ∨ labels.length ≤ labels.get node := by
  rw [Labels.get]
  cases found : labels[node]? with
  | none => exact .inr (List.getElem?_eq_none_iff.1 found)
  | some label => exact .inl (h node label found)

theorem Rooted.join {labels : Labels} (h : labels.Rooted) (a b : Nat) : (labels.join a b).Rooted := by
  intro node label found
  rw [Labels.join, getElem?_map] at found ⊢
  obtain ⟨old, before, rfl⟩ := Option.map_eq_some_iff.1 found
  have root := h node old before
  by_cases renamed : old = max (labels.get a) (labels.get b)
  · rw [if_pos renamed]
    by_cases same : min (labels.get a) (labels.get b) = max (labels.get a) (labels.get b)
    · rw [same, ← renamed, root, Option.map_some, if_pos rfl]
    · have inside : old < labels.length := (List.getElem?_eq_some_iff.1 root).1
      have least : labels[min (labels.get a) (labels.get b)]? = some (min (labels.get a) (labels.get b)) := by
        have small : min (labels.get a) (labels.get b) < labels.length := by omega
        rcases Nat.le_total (labels.get a) (labels.get b) with le | le
        · rw [Nat.min_eq_left le] at small ⊢
          exact (h.get a).resolve_right (by omega)
        · rw [Nat.min_eq_right le] at small ⊢
          exact (h.get b).resolve_right (by omega)
      rw [least, Option.map_some, if_neg same]
  · rw [if_neg renamed, root, Option.map_some, if_neg renamed]

theorem length_join (labels : Labels) (a b : Nat) : (labels.join a b).length = labels.length :=
  length_map ..

theorem join_congr {labels : Labels} {node other : Nat} (same : labels[node]? = labels[other]?) (a b : Nat) :
    (labels.join a b)[node]? = (labels.join a b)[other]? := by
  rw [join, getElem?_map, getElem?_map, same]

theorem join_joins {labels : Labels} {a b : Nat} (first : a < labels.length) (second : b < labels.length) :
    (labels.join a b)[a]? = (labels.join a b)[b]? := by
  have left : labels.get a = labels[a] := by rw [get, getElem?_eq_getElem first, Option.getD_some]
  have right : labels.get b = labels[b] := by rw [get, getElem?_eq_getElem second, Option.getD_some]
  rw [join, getElem?_map, getElem?_map, getElem?_eq_getElem first, getElem?_eq_getElem second,
    left, right]
  simp only [Option.map_some, Option.some.injEq]
  split <;> split <;> omega

end Labels

namespace DeclTable

/-- Whether the structs of a table are numbered by their positions. -/
def Numbered (table : DeclTable) : Prop :=
  ∀ (id : StructId) (own : StructDef), table.struct? id = some own → own.id = id

theorem labels_rooted (table : DeclTable) : table.labels.Rooted ∧ table.labels.length = table.structs.length := by
  have each : ∀ (links : List (Nat × Nat)) (labels : Labels), labels.Rooted →
      (links.foldl (fun labels link => labels.join link.1 link.2) labels).Rooted ∧
        (links.foldl (fun labels link => labels.join link.1 link.2) labels).length = labels.length := by
    intro links
    induction links with
    | nil => exact fun _ rooted => ⟨rooted, rfl⟩
    | cons link rest ih =>
      intro labels rooted
      obtain ⟨last, count⟩ := ih (labels.join link.1 link.2) (rooted.join link.1 link.2)
      exact ⟨last, count.trans (labels.length_join ..)⟩
  obtain ⟨rooted, count⟩ := each table.links _ (Labels.rooted_range table.structs.length)
  exact ⟨rooted, count.trans length_range⟩

theorem labels_linked (table : DeclTable) {a b : Nat} (linked : (a, b) ∈ table.links)
    (first : a < table.structs.length) (second : b < table.structs.length) :
    table.labels[a]? = table.labels[b]? := by
  have each : ∀ (links : List (Nat × Nat)) (labels : Labels), a < labels.length → b < labels.length →
      labels[a]? = labels[b]? ∨ (a, b) ∈ links →
      (links.foldl (fun labels link => labels.join link.1 link.2) labels)[a]? =
        (links.foldl (fun labels link => labels.join link.1 link.2) labels)[b]? := by
    intro links
    induction links with
    | nil => exact fun _ _ _ either => either.resolve_right (not_mem_nil)
    | cons link rest ih =>
      intro labels first second either
      refine ih (labels.join link.1 link.2) (by rwa [labels.length_join]) (by rwa [labels.length_join]) ?_
      rcases either with same | mem
      · exact .inl (Labels.join_congr same _ _)
      · rcases mem_cons.1 mem with rfl | mem
        · exact .inl (Labels.join_joins first second)
        · exact .inr mem
  exact each table.links _ (by rwa [length_range]) (by rwa [length_range]) (.inr linked)

theorem mem_links {table : DeclTable} (numbered : table.Numbered) {a b : StructId} (composes : table.Composes a b) :
    (a.index, b.index) ∈ table.links := by
  obtain ⟨own, found, mem, _⟩ := composes
  obtain ⟨parent, isOne, rfl⟩ := mem_map.1 mem
  rw [← numbered a own found]
  exact mem_flatMap.2 ⟨own, mem_of_getElem? found, mem_map_of_mem isOne⟩

theorem labels_composes {table : DeclTable} (numbered : table.Numbered) {a b : StructId}
    (composes : table.Composes a b) : table.labels[a.index]? = table.labels[b.index]? := by
  have linked := mem_links numbered composes
  obtain ⟨own, found, _, declared⟩ := composes
  obtain ⟨other, known⟩ := Option.isSome_iff_exists.1 declared
  exact table.labels_linked linked (List.getElem?_eq_some_iff.1 found).1 (List.getElem?_eq_some_iff.1 known).1

def firsts (table : DeclTable) : List Nat :=
  (table.labels.zipIdx.filter fun (label, node) => label = node).map (·.1)

def group (table : DeclTable) (first : Nat) : List StructId :=
  (table.labels.zipIdx.filter fun (label, _) => label = first).map fun (_, node) => ⟨node⟩

theorem components_eq (table : DeclTable) : table.components = table.firsts.map table.group := by
  rw [components, firsts, map_map]
  rfl

theorem mem_group {table : DeclTable} {first : Nat} {id : StructId} :
    id ∈ table.group first ↔ table.labels[id.index]? = some first := by
  constructor
  · intro mem
    obtain ⟨⟨label, node⟩, isOne, rfl⟩ := mem_map.1 mem
    obtain ⟨found, same⟩ := mem_filter.1 isOne
    rw [← of_decide_eq_true same]
    exact mem_zipIdx_iff_getElem?.1 found
  · intro found
    exact mem_map.2 ⟨(first, id.index), mem_filter.2
      ⟨mem_zipIdx_iff_getElem?.2 found, decide_eq_true rfl⟩, rfl⟩

theorem zipIdx_ordered (table : DeclTable) : table.labels.zipIdx.Pairwise fun a b => a.2 < b.2 := by
  refine pairwise_map.1 ?_
  rw [zipIdx_map_snd]
  exact pairwise_lt_range'

theorem firsts_ordered (table : DeclTable) : table.firsts.Pairwise (· < ·) := by
  refine pairwise_map.2 ((table.zipIdx_ordered.filter _).imp_of_mem fun isFirst isSecond less => ?_)
  rwa [of_decide_eq_true (mem_filter.1 isFirst).2, of_decide_eq_true (mem_filter.1 isSecond).2]

theorem nodup_firsts (table : DeclTable) : table.firsts.Nodup :=
  table.firsts_ordered.imp Nat.ne_of_lt

theorem mem_firsts (table : DeclTable) {id : StructId} (h : (table.struct? id).isSome) :
    ∃ first ∈ table.firsts, table.labels[id.index]? = some first := by
  obtain ⟨own, found⟩ := Option.isSome_iff_exists.1 h
  obtain ⟨rooted, count⟩ := table.labels_rooted
  obtain ⟨label, labelled⟩ : ∃ label, table.labels[id.index]? = some label :=
    ⟨_, getElem?_eq_getElem (count ▸ (List.getElem?_eq_some_iff.1 found).1)⟩
  refine ⟨label, mem_map.2 ⟨(label, label), mem_filter.2 ⟨?_, decide_eq_true rfl⟩, rfl⟩, labelled⟩
  exact mem_zipIdx_iff_getElem?.2 (rooted id.index label labelled)

end DeclTable

end SemanticChecker
