import SemanticChecker.Proofs.Composition.Cycles

/-! The groups that structs are resolved in are a partition of them: the connected components of composition, each in
order, and ordered by what comes first in them. So the search through one group finishes the structs of that group and
no others, and every struct is resolved once. -/
namespace SemanticChecker

open List

open Relation (EqvGen)

namespace Labels

variable {linked : StructId → StructId → Prop} {labels : Labels} {a b : Nat}

/-- Whether labels are no greater than what has them, and connected with it. -/
def Connects (linked : StructId → StructId → Prop) (labels : Labels) : Prop :=
  ∀ node label : Nat, labels[node]? = some label → label ≤ node ∧ EqvGen linked ⟨node⟩ ⟨label⟩

theorem Connects.get (h : labels.Connects linked) (node : Nat) : EqvGen linked ⟨node⟩ ⟨labels.get node⟩ := by
  rw [Labels.get]
  cases found : labels[node]? with
  | none => exact .refl _
  | some label => exact (h node label found).2

theorem get_of_outside (outside : labels.length ≤ a) : labels.get a = a := by
  rw [get, getElem?_eq_none outside, Option.getD_none]

/-- A label only changes to a smaller one, and only where both ends of the link have labels. -/
theorem Connects.join (h : labels.Connects linked)
    (link : a < labels.length → b < labels.length → EqvGen linked ⟨a⟩ ⟨b⟩) : (labels.join a b).Connects linked := by
  intro node label found
  rw [Labels.join, getElem?_map] at found
  obtain ⟨old, before, rfl⟩ := Option.map_eq_some_iff.1 found
  obtain ⟨low, way⟩ := h node old before
  split
  · rename_i renamed
    have inside := (List.getElem?_eq_some_iff.1 before).1
    have known : ∀ other, labels.get other ≤ old → other < labels.length := by
      intro other small
      by_contra outside
      rw [get_of_outside (Nat.le_of_not_lt outside)] at small
      omega
    have both : EqvGen linked ⟨labels.get a⟩ ⟨labels.get b⟩ :=
      .trans _ _ _ (.symm _ _ (h.get a)) (.trans _ _ _ (link (known a (by omega)) (known b (by omega))) (h.get b))
    refine ⟨by omega, .trans _ _ _ way ?_⟩
    rw [renamed]
    rcases Nat.le_total (labels.get a) (labels.get b) with le | le
    · rw [Nat.max_eq_right le, Nat.min_eq_left le]
      exact .symm _ _ both
    · rw [Nat.max_eq_left le, Nat.min_eq_right le]
      exact both
  · exact ⟨low, way⟩

end Labels

namespace DeclTable

variable {table : DeclTable} {first : Nat}

theorem Numbered.ids (numbered : table.Numbered) :
    table.structs.map (·.id) = (List.range table.structs.length).map StructId.mk := by
  refine ext_getElem (by simp) fun index _ inside => ?_
  rw [length_map, length_range] at inside
  rw [getElem_map, getElem_map, getElem_range]
  exact numbered ⟨index⟩ _ (getElem?_eq_getElem inside)

theorem isSome_struct?_of_label {id : StructId} (labelled : table.labels[id.index]? = some first) :
    (table.struct? id).isSome := by
  rw [struct?, isSome_getElem?, ← table.labels_rooted.2]
  exact (List.getElem?_eq_some_iff.1 labelled).1

theorem group_ordered (table : DeclTable) (first : Nat) :
    (table.group first).Pairwise fun a b => a.index < b.index :=
  pairwise_map.2 (table.zipIdx_ordered.filter _)

theorem nodup_group (table : DeclTable) (first : Nat) : (table.group first).Nodup :=
  (table.group_ordered first).imp fun less same => Nat.ne_of_lt less (congrArg StructId.index same)

theorem components_perm (table : DeclTable) :
    table.components.flatten.Perm ((List.range table.structs.length).map StructId.mk) := by
  rw [components_eq, ← List.flatMap_def, perm_ext_iff_of_nodup _ (nodup_range.map fun _ _ => StructId.mk.inj)]
  · intro id
    rw [mem_flatMap, mem_map]
    constructor
    · rintro ⟨first, _, mem⟩
      refine ⟨id.index, mem_range.2 ?_, rfl⟩
      simpa [struct?] using isSome_struct?_of_label (mem_group.1 mem)
    · rintro ⟨index, inside, rfl⟩
      obtain ⟨first, isOne, here⟩ := table.mem_firsts (by simpa [struct?] using inside : (table.struct? ⟨index⟩).isSome)
      exact ⟨first, isOne, mem_group.2 here⟩
  · refine nodup_flatMap.2 ⟨fun first _ => table.nodup_group first, ?_⟩
    refine table.nodup_firsts.imp fun different id here there => different ?_
    exact Option.some.inj ((mem_group.1 here).symm.trans (mem_group.1 there))

end DeclTable

theorem Traced.nodup {table : DeclTable} {issues listed : List CompositionIssue} {memo : List (StructId × Resolution)}
    (h : Traced table issues memo listed) : (memo.map (·.1)).Nodup := by
  induction h with
  | nil => exact nodup_nil
  | cons _ fresh _ ih =>
    refine nodup_cons.2 ⟨fun mem => ?_, ih⟩
    obtain ⟨entry, isOne, same⟩ := mem_map.1 mem
    exact fresh entry isOne same

namespace Compositions

variable {table : DeclTable}

/-- The search through a group finishes the structs of that group, each once. -/
theorem searched_perm (numbered : table.Numbered) (first : Nat) :
    ((searched table first).memo.map (·.1)).Perm (table.group first) := by
  obtain ⟨sound, finished⟩ := searched_sound numbered first
  refine (perm_ext_iff_of_nodup sound.traced.nodup (table.nodup_group first)).2 fun id => ?_
  rw [DeclTable.mem_group, mem_map]
  constructor
  · rintro ⟨entry, mem, rfl⟩
    exact (sound.memo entry mem).2
  · intro here
    obtain ⟨done, mem⟩ := finished id here (DeclTable.isSome_struct?_of_label here)
    exact ⟨_, mem, rfl⟩

theorem resolutions_perm (numbered : table.Numbered) :
    ((ofTable table).resolutions.map (·.1)).Perm (table.structs.map (·.id)) := by
  rw [numbered.ids]
  refine List.Perm.trans ?_ table.components_perm
  rw [ofTable_eq, map_flatMap, DeclTable.components_eq, ← List.flatMap_def]
  exact List.Perm.flatMap_left _ fun first _ => searched_perm numbered first

end Compositions

end SemanticChecker
