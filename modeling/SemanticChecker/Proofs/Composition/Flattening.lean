import Mathlib.Data.Fintype.EquivFin
import Mathlib.Order.RelClasses
import SemanticChecker.Proofs.Composition.Composed
import SemanticChecker.Proofs.Composition.Partition

/-! Composition without a memory. Where no struct composes itself, its layout can be read off the declarations by plain
recursion: the parents are flattened, each on its own, and merged with what the struct declares. The search with its
memory, its stack and its list of issues comes to the same layouts, in whatever order structs are asked for, and
reports the issues of every struct once. -/
namespace SemanticChecker

open List

open Relation (TransGen ReflTransGen)

namespace DeclTable

variable {table : DeclTable}

/-- Whether no struct composes itself, directly or through others. -/
def Acyclic (table : DeclTable) : Prop :=
  ∀ id, ¬ TransGen table.Composes id id

theorem Composes.index_lt {id above : StructId} (h : table.Composes id above) : above.index < table.structs.length := by
  obtain ⟨_, _, _, declared⟩ := h
  obtain ⟨_, found⟩ := Option.isSome_iff_exists.1 declared
  exact (List.getElem?_eq_some_iff.1 found).1

theorem Numbered.nodup_ids (numbered : table.Numbered) : (table.structs.map (·.id)).Nodup := by
  rw [numbered.ids]
  exact nodup_range.map fun _ _ => StructId.mk.inj

theorem Numbered.mem_ids (numbered : table.Numbered) {id : StructId} :
    id ∈ table.structs.map (·.id) ↔ (table.struct? id).isSome := by
  have inside_iff : (table.struct? id).isSome ↔ id.index < table.structs.length := by
    rw [struct?, isSome_getElem?]
  rw [numbered.ids, mem_map, inside_iff]
  constructor
  · rintro ⟨_, inside, rfl⟩
    exact mem_range.1 inside
  · exact fun inside => ⟨id.index, mem_range.2 inside, rfl⟩

/-- There are finitely many structs, so without cycles going up comes to an end. -/
theorem Acyclic.wellFounded (h : table.Acyclic) : WellFounded fun above id => table.Composes id above := by
  let leads (a b : Fin table.structs.length) : Prop := TransGen table.Composes ⟨b⟩ ⟨a⟩
  have : IsTrans _ leads := ⟨fun _ _ _ first second => second.trans first⟩
  have : Std.Irrefl leads := ⟨fun a => h ⟨a⟩⟩
  have ends : WellFounded leads := Finite.wellFounded_of_trans_of_irrefl _
  have each : ∀ a : Fin table.structs.length, Acc (fun above id => table.Composes id above) ⟨a⟩ := by
    intro a
    induction a using ends.induction with
    | _ a ih => exact .intro _ fun above composes => ih ⟨above.index, composes.index_lt⟩ (.single composes)
  exact ⟨fun id => .intro _ fun above composes => each ⟨above.index, composes.index_lt⟩⟩

/-- What composing a struct comes to and reports, by recursion through its parents. A parent that is not declared is
left out. -/
def flatten (table : DeclTable) (acyclic : table.Acyclic) (id : StructId) : Resolution × List CompositionIssue :=
  match _found : table.struct? id with
  | none => (.cycle [id] { id, name := table.names.struct id }, [])
  | some own =>
    let parents := own.shape.composes.attach.filterMap fun ⟨parent, _⟩ =>
      if _declared : (table.struct? parent.id).isSome then
        some (parent.type, (table.flatten acyclic parent.id).1.layout)
      else none
    own.compose table parents (own.shape.composes.any fun parent => (table.struct? parent.id).isNone)
termination_by acyclic.wellFounded.wrap id
decreasing_by exact ⟨own, ‹_›, mem_map_of_mem ‹_›, ‹_›⟩

variable (acyclic : table.Acyclic)

def flatParents (composed : List ComposedParent) : List (Ty × Layout) :=
  composed.filterMap fun parent =>
    if (table.struct? parent.id).isSome then some (parent.type, (table.flatten acyclic parent.id).1.layout) else none

theorem flatParents_eq (composed : List ComposedParent) :
    flatParents acyclic composed = (composed.filter fun parent => (table.struct? parent.id).isSome).map fun parent =>
      (parent.type, (table.flatten acyclic parent.id).1.layout) := by
  induction composed with
  | nil => rfl
  | cons parent rest ih =>
    cases found : table.struct? parent.id <;> simpa [flatParents, found] using ih

theorem flatten_undeclared {id : StructId} (missing : table.struct? id = none) :
    table.flatten acyclic id = (.cycle [id] { id, name := table.names.struct id }, []) := by
  rw [flatten]
  split
  · rfl
  · simp_all

theorem flatten_declared {id : StructId} {own : StructDef} (found : table.struct? id = some own) :
    table.flatten acyclic id = own.compose table (flatParents acyclic own.shape.composes)
      (own.shape.composes.any fun parent => (table.struct? parent.id).isNone) := by
  have parents : (own.shape.composes.attach.filterMap fun parent => if (table.struct? parent.1.id).isSome then
      some (parent.1.type, (table.flatten acyclic parent.1.id).1.layout) else none) =
        flatParents acyclic own.shape.composes := by
    rw [flatParents]
    conv_rhs => rw [← attach_map_subtype_val own.shape.composes, filterMap_map]
    rfl
  rw [flatten]
  split
  · simp_all
  · rename_i other same
    cases found.symm.trans same
    exact congrArg (fun parents => own.compose table parents _) parents

end DeclTable

namespace CompositionSearch

/-- The structs that are finished, the last first. -/
def finished (s : CompositionSearch) : List StructId :=
  s.memo.map (·.1)

end CompositionSearch

section

variable {table : DeclTable} (acyclic : table.Acyclic) {issues listed : List CompositionIssue}
  {memo : List (StructId × Resolution)}

theorem Merges.flat {composed : List ComposedParent} {parents : List (ComposedParent × Layout)} {tainted : Bool}
    (h : Merges table issues memo composed parents tainted) (none : cyclesOf issues = [])
    (flat : ∀ entry ∈ memo, entry.2 = (table.flatten acyclic entry.1).1) :
    parents.map (fun pair => (pair.1.type, pair.2)) = DeclTable.flatParents acyclic composed := by
  have each : ∀ pair ∈ parents, (pair.1.type, pair.2) = (pair.1.type, (table.flatten acyclic pair.1.id).1.layout) := by
    intro pair mem
    obtain ⟨_, done, isDone, layout⟩ := h.finished pair mem
    have same : done = (table.flatten acyclic pair.1.id).1 := flat _ isDone
    rw [← layout, same]
  rw [map_congr_left each, DeclTable.flatParents_eq, ← h.all none, map_map]
  rfl

/-- By induction over what is finished, the first finished first. -/
theorem Traced.flattens (h : Traced table issues memo listed) (none : cyclesOf issues = []) :
    (∀ entry ∈ memo, entry.2 = (table.flatten acyclic entry.1).1) ∧
      listed = (memo.map (·.1)).reverse.flatMap fun id => (table.flatten acyclic id).2 := by
  induction h with
  | nil => exact ⟨fun _ mem => (by cases mem), rfl⟩
  | @cons id done _ _ _ _ composed ih =>
    obtain ⟨own, found, ⟨some, _⟩ | ⟨_, parents, tainted, same, merges⟩⟩ := composed
    · exact absurd none some
    · have flat : done = table.flatten acyclic id := by
        rw [same, StructDef.composeOf, merges.flat acyclic none ih.1, merges.tainted none,
          DeclTable.flatten_declared acyclic found]
      rw [flat]
      exact ⟨forall_mem_cons.2 ⟨rfl, ih.1⟩, by simp [ih.2]⟩

theorem Traced.closed (h : Traced table issues memo listed) (none : cyclesOf issues = []) :
    ∀ entry ∈ memo, ∀ above, table.Composes entry.1 above → ∃ done, (above, done) ∈ memo := by
  induction h with
  | nil => exact fun _ mem => by cases mem
  | cons _ _ composed ih =>
    obtain ⟨own, _, ⟨some, _⟩ | ⟨finished, _⟩⟩ := composed
    · exact absurd none some
    · refine forall_mem_cons.2 ⟨fun above composes => ?_, fun entry mem above composes => ?_⟩
      · exact (finished above composes).imp fun _ => mem_cons_of_mem _
      · exact (ih entry mem above composes).imp fun _ => mem_cons_of_mem _

end

namespace CompositionSearch

variable {table : DeclTable} {inside : StructId → Prop} {s : CompositionSearch}

theorem Sound.cycles_eq_nil (h : s.Sound table inside) (acyclic : table.Acyclic) : cyclesOf s.issues = [] := by
  refine eq_nil_iff_forall_not_mem.2 fun members mem => ?_
  obtain ⟨id, loop⟩ := (h.cycles members mem).1.transGen
  exact acyclic id loop

theorem Sound.memo_eq (h : s.Sound table inside) (acyclic : table.Acyclic) :
    ∀ entry ∈ s.memo, entry.2 = (table.flatten acyclic entry.1).1 :=
  (h.traced.flattens acyclic (h.cycles_eq_nil acyclic)).1

theorem Sound.issues_eq (h : s.Sound table inside) (acyclic : table.Acyclic) :
    s.issues = s.finished.reverse.flatMap fun id => (table.flatten acyclic id).2 := by
  have none := h.cycles_eq_nil acyclic
  rw [← mergeIssues_eq_self none]
  exact (h.traced.flattens acyclic none).2

/-- The search after structs were asked for in some order. -/
def asked (table : DeclTable) (order : List StructId) : CompositionSearch :=
  ((SearchM.resolveEach table order).run {}).2

theorem asked_sound (inside : StructId → Prop) (closed : ∀ a b, table.Composes a b → inside a → inside b)
    {order : List StructId} (all : ∀ id ∈ order, inside id) :
    (asked table order).stack = [] ∧ (asked table order).Sound table inside ∧
      ∀ id ∈ order, (table.struct? id).isSome → ∃ done, (id, done) ∈ (asked table order).memo := by
  obtain ⟨advances, sound, finished⟩ := SearchM.resolveEach_sound closed order {} rfl all .initial
  exact ⟨advances.stack, sound, finished⟩

theorem asked_sound_anywhere (table : DeclTable) (order : List StructId) :
    (asked table order).stack = [] ∧ (asked table order).Sound table fun _ => True :=
  (asked_sound _ (fun _ _ _ _ => trivial) fun _ _ => trivial).imp_right And.left

theorem mem_finished_asked (acyclic : table.Acyclic) (order : List StructId) {id : StructId} :
    id ∈ (asked table order).finished ↔
      (table.struct? id).isSome ∧ ∃ first ∈ order, ReflTransGen table.Composes first id := by
  -- The search goes to no other structs than those asked for and those above them.
  obtain ⟨_, sound, start⟩ := asked_sound (fun id => ∃ first ∈ order, ReflTransGen table.Composes first id)
    (fun _ _ composes ⟨first, isOne, way⟩ => ⟨first, isOne, way.tail composes⟩) fun id mem => ⟨id, mem, .refl⟩
  constructor
  · intro mem
    obtain ⟨entry, isEntry, rfl⟩ := mem_map.1 mem
    exact ⟨sound.traced.declared entry isEntry, (sound.memo entry isEntry).2⟩
  · rintro ⟨declared, first, isOne, way⟩
    have known : (table.struct? first).isSome := by
      rcases way.cases_head with rfl | ⟨_, ⟨own, found, _⟩, _⟩
      · exact declared
      · rw [found]
        rfl
    obtain ⟨done, start⟩ := start first isOne known
    clear * - acyclic sound start way
    induction way with
    | refl => exact mem_map_of_mem start
    | tail _ composes ih =>
      obtain ⟨entry, isEntry, rfl⟩ := mem_map.1 ih
      obtain ⟨done, mem⟩ := sound.traced.closed (sound.cycles_eq_nil acyclic) entry isEntry _ composes
      exact mem_map_of_mem mem

theorem resolve_asked (acyclic : table.Acyclic) (order : List StructId) {depth : Nat}
    (deep : table.structs.length < depth) (id : StructId) :
    ((SearchM.resolve table depth id).run (asked table order)).1 = (table.flatten acyclic id).1 := by
  obtain ⟨idle, sound⟩ := asked_sound_anywhere table order
  obtain ⟨_, later, settles⟩ := SearchM.resolve_sound (fun _ _ _ _ => trivial) depth id (asked table order) (by omega)
    (fun _ => ⟨trivial, by simp [idle]⟩) sound
  have flat := later.memo_eq acyclic
  generalize (SearchM.resolve table depth id).run (asked table order) = ran at *
  obtain ⟨resolution, last⟩ := ran
  cases settles with
  | finished mem => exact flat _ mem
  | missing undeclared => rw [DeclTable.flatten_undeclared acyclic undeclared]
  | closes onStack _ => simp [idle] at onStack

end CompositionSearch

namespace Compositions

open CompositionSearch (asked asked_sound_anywhere mem_finished_asked)

variable {table : DeclTable}

theorem acyclic_of_cycles_eq_nil (numbered : table.Numbered) (none : (ofTable table).cycles = []) : table.Acyclic :=
  fun id => DeclTable.not_transGen_of_acc (acc_of_cycles_eq_nil numbered none id)

theorem issues_perm (acyclic : table.Acyclic) (numbered : table.Numbered) :
    (ofTable table).issues.Perm (table.structs.flatMap fun own => (table.flatten acyclic own.id).2) := by
  have issues : (ofTable table).issues = (table.firsts.flatMap fun first => (searched table first).finished.reverse).flatMap
      fun id => (table.flatten acyclic id).2 := by
    rw [ofTable_eq, flatMap_assoc]
    exact congrArg (List.flatMap · table.firsts) (funext fun first => (asked_sound_anywhere table _).2.issues_eq acyclic)
  have ids : (table.structs.flatMap fun own => (table.flatten acyclic own.id).2) =
      (table.structs.map (·.id)).flatMap fun id => (table.flatten acyclic id).2 := by
    rw [flatMap_map]
  rw [issues, ids]
  refine List.Perm.flatMap_right _ ?_
  refine List.Perm.trans ?_ (resolutions_perm numbered)
  rw [ofTable_eq, map_flatMap]
  exact List.Perm.flatMap_left _ fun first _ => (reverse_perm _)

theorem find?_eq_flatten (acyclic : table.Acyclic) (numbered : table.Numbered) {id : StructId}
    (declared : (table.struct? id).isSome) : (ofTable table).find? id = some (table.flatten acyclic id).1 := by
  obtain ⟨first, isOne, here⟩ := table.mem_firsts declared
  obtain ⟨done, mem⟩ := (searched_sound numbered first).2 id here declared
  rw [← (searched_sound numbered first).1.memo_eq acyclic _ mem]
  exact (find?_ofTable numbered).2 ⟨first, isOne, mem⟩

/-- Where no struct composes itself, it does not matter that the search remembers. After structs were asked for in
any order, each struct comes to what flattening it gives; the finished structs are those asked for and those above
them, each finished once; and the issues are those that flattening reports of the finished structs, once for each.
Composing all structs finds for every one what flattening it gives, one resolution each, and reports all the issues
of flattening, as many times as flattening does. -/
theorem resolve_eq_flatten (table : DeclTable) (acyclic : table.Acyclic) :
    (∀ order : List StructId,
      (∀ id depth, table.structs.length < depth →
        ((SearchM.resolve table depth id).run (asked table order)).1 = (table.flatten acyclic id).1) ∧
      (∀ entry ∈ (asked table order).memo, entry.2 = (table.flatten acyclic entry.1).1) ∧
      (asked table order).finished.Nodup ∧
      (∀ id, id ∈ (asked table order).finished ↔
        (table.struct? id).isSome ∧ ∃ first ∈ order, ReflTransGen table.Composes first id) ∧
      (asked table order).issues =
        (asked table order).finished.reverse.flatMap fun id => (table.flatten acyclic id).2) ∧
    (table.Numbered →
      (∀ id, (table.struct? id).isSome → (ofTable table).find? id = some (table.flatten acyclic id).1) ∧
      ((ofTable table).resolutions.map (·.1)).Perm (table.structs.map (·.id)) ∧
      (ofTable table).issues.Perm (table.structs.flatMap fun own => (table.flatten acyclic own.id).2)) := by
  refine ⟨fun order => ?_, fun numbered => ⟨fun id => find?_eq_flatten acyclic numbered,
    resolutions_perm numbered, issues_perm acyclic numbered⟩⟩
  obtain ⟨_, sound⟩ := asked_sound_anywhere table order
  exact ⟨fun id depth deep => CompositionSearch.resolve_asked acyclic order deep id, sound.memo_eq acyclic,
    sound.traced.nodup, fun id => mem_finished_asked acyclic order, sound.issues_eq acyclic⟩

/-- A struct composes another by two ways. One of the parents declares a field of its own that both inherit, and a
method stays without a body. -/
def diamond : DeclTable :=
  (Collected.ofUnits .standard [{
    id := ⟨0⟩
    declarations := [
      .struct {
        name := "Base"
        fields := [{ name := "size", type := ⟨.named "int64" [], {}⟩ }]
        methods := [{ name := "area", returns := [⟨.named "int64" [], {}⟩] }] },
      .struct { name := "Left", composes := [⟨.named "Base" [], {}⟩] },
      .struct {
        name := "Right"
        composes := [⟨.named "Base" [], {}⟩]
        fields := [{ name := "size", type := ⟨.named "int64" [], {}⟩ }] },
      .struct { name := "Both", composes := [⟨.named "Left" [], {}⟩, ⟨.named "Right" [], {}⟩] }] }]).declared.table

theorem resolve_eq_flatten_diamond : ∃ acyclic : diamond.Acyclic,
    (∀ id, ((SearchM.resolve diamond 5 id).run (asked diamond [⟨2⟩, ⟨3⟩, ⟨1⟩])).1 = (diamond.flatten acyclic id).1) ∧
    (asked diamond [⟨2⟩, ⟨3⟩, ⟨1⟩]).finished = [⟨3⟩, ⟨1⟩, ⟨2⟩, ⟨0⟩] ∧
    (ofTable diamond).issues.Perm (diamond.structs.flatMap fun own => (diamond.flatten acyclic own.id).2) ∧
    (ofTable diamond).issues.map (·.code) =
      [.missingOverride, .duplicateField, .missingOverride, .missingOverride] := by
  have numbered : diamond.Numbered := (Collected.ofUnits_regular _ _).numbered
  have none : (ofTable diamond).cycles = [] := by decide +kernel
  have acyclic : diamond.Acyclic := acyclic_of_cycles_eq_nil numbered none
  have ⟨each, all⟩ := resolve_eq_flatten diamond acyclic
  refine ⟨acyclic, fun id => (each _).1 id 5 (by decide +kernel), by decide +kernel, (all numbered).2.2, by decide +kernel⟩

end Compositions

end SemanticChecker
