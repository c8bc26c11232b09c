import Mathlib.Data.List.Nodup
import Mathlib.Logic.Relation
import SemanticChecker.Proofs.Composition.Regular

/-! Composition cycles. The search through composition lists comes to an end by itself, whatever its
depth is bounded by; it reports a cycle exactly if there is one, and only cycles, each set of members once. -/
namespace SemanticChecker

open List

namespace SearchM

variable {table : DeclTable}

theorem run_bind {α β : Type} (x : SearchM α) (f : α → SearchM β) (s : CompositionSearch) :
    (x >>= f).run s = (f (x.run s).1).run (x.run s).2 :=
  rfl

theorem run_within {α β : Type} (id : StructId) (x : SearchM α) (next : α → SearchM β) (s : CompositionSearch) :
    (do push id; let a ← x; pop; next a : SearchM β).run s =
      (next (x.run { s with stack := s.stack ++ [id] }).1).run
        { (x.run { s with stack := s.stack ++ [id] }).2 with
          stack := (x.run { s with stack := s.stack ++ [id] }).2.stack.dropLast } :=
  rfl

theorem parents_congr {f g : StructId → SearchM Resolution} {stack : List StructId}
    (same : ∀ id s, s.stack = stack → (f id).run s = (g id).run s ∧ ((g id).run s).2.stack = stack) :
    ∀ (composed : List ComposedParent) (s : CompositionSearch), s.stack = stack →
      (parents f composed).run s = (parents g composed).run s ∧ ((parents g composed).run s).2.stack = stack
  | [], s, here => ⟨rfl, here⟩
  | parent :: rest, s, here => by
    obtain ⟨first, kept⟩ := same parent.id s here
    obtain ⟨others, last⟩ := parents_congr same rest _ kept
    rw [parents, parents, run_bind, run_bind, first, run_bind, run_bind, others]
    refine ⟨rfl, ?_⟩
    dsimp only
    split <;> exact last

/-- A greater depth changes nothing, as long as there are no more structs than the depth and the stack
together make room for. -/
theorem resolve_add (more : Nat) : ∀ (depth : Nat) (id : StructId) (s : CompositionSearch), s.stack.Nodup →
    (∀ id ∈ s.stack, (table.struct? id).isSome) → table.structs.length < depth + s.stack.length →
    (resolve table (more + depth) id).run s = (resolve table depth id).run s ∧
      ((resolve table depth id).run s).2.stack = s.stack
  | 0, id, s, nodup, declared, enough => by
    have few := DeclTable.length_le_of_declared nodup declared
    omega
  | depth + 1, id, s, nodup, declared, enough => by
    have here : ∀ f : CompositionSearch → SearchM Resolution, (get >>= f).run s = (f s).run s := fun _ => rfl
    rw [show more + (depth + 1) = more + depth + 1 from rfl, resolve, resolve, here, here]
    cases s.memo.lookup id with
    | some done => exact ⟨rfl, rfl⟩
    | none =>
      cases found : table.struct? id with
      | none => exact ⟨rfl, rfl⟩
      | some own =>
        dsimp only
        split
        · refine ⟨rfl, ?_⟩
          rw [run_bind]
          rcases noteCycle_cases (s.stack.dropWhile (· != id)) s with ⟨_, run⟩ | ⟨_, run⟩ <;> rw [run] <;> rfl
        · rename_i offStack
          have room : table.structs.length < depth + (s.stack ++ [id]).length := by
            rw [length_append, length_singleton]
            omega
          have onStack : ∀ other ∈ s.stack ++ [id], (table.struct? other).isSome :=
            forall_mem_append.2 ⟨declared, by simp [found]⟩
          have different : (s.stack ++ [id]).Nodup := by
            rw [nodup_append]
            exact ⟨nodup, by simp, fun a mem b last same => offStack (mem_singleton.1 last ▸ same ▸ mem)⟩
          have each : ∀ other later, later.stack = s.stack ++ [id] →
              (resolve table (more + depth) other).run later = (resolve table depth other).run later ∧
                ((resolve table depth other).run later).2.stack = s.stack ++ [id] := fun other later here =>
            here ▸ resolve_add more depth other later (here ▸ different) (here ▸ onStack) (here ▸ room)
          obtain ⟨same, kept⟩ := parents_congr each own.shape.composes { s with stack := s.stack ++ [id] } rfl
          rw [run_within, run_within, same]
          refine ⟨rfl, ?_⟩
          rw [kept, dropLast_concat]
          dsimp only
          rw [run_bind]
          split <;> rfl

end SearchM

theorem memberKey_eq {a b : List StructId} (first : a.Nodup) (second : b.Nodup) (same : ∀ id, id ∈ a ↔ id ∈ b) :
    memberKey a = memberKey b := by
  have sorted : ∀ members : List StructId,
      (memberKey members).Pairwise fun a b => decide (a.index ≤ b.index) = true :=
    pairwise_mergeSort (fun a b c => by simpa using Nat.le_trans) fun a b => by simpa using Nat.le_total ..
  have perm : (memberKey a).Perm (memberKey b) :=
    (mergeSort_perm a _).trans (((perm_ext_iff_of_nodup first second).2 same).trans
      (mergeSort_perm b _).symm)
  refine perm.eq_of_pairwise (fun x y _ _ le ge => ?_) (sorted a) (sorted b)
  exact congrArg StructId.mk (Nat.le_antisymm (of_decide_eq_true le) (of_decide_eq_true ge))

namespace DeclTable

variable {table : DeclTable}

theorem transGen_of_isChain {a b : StructId} {between : List StructId}
    (chain : (a :: (between ++ [b])).IsChain table.Composes) : Relation.TransGen table.Composes a b := by
  obtain ⟨step, chain⟩ := isChain_cons.1 chain
  have nonempty : between ++ [b] ≠ [] := by simp
  have onward := relationReflTransGen_of_exists_isChain _ chain nonempty
  rw [getLast_append_singleton] at onward
  exact .head' (step _ (head_mem_head? nonempty)) onward

theorem IsCycle.leads {members : List StructId} (h : table.IsCycle members) {a b : StructId} (first : a ∈ members)
    (second : b ∈ members) : Relation.TransGen table.Composes a b := by
  obtain ⟨top, rest, rfl⟩ := exists_cons_of_ne_nil h.nonempty
  have around : ((top :: rest) ++ [top]).IsChain table.Composes := h.composes
  have back : Relation.TransGen table.Composes a top := by
    obtain ⟨before, after, same⟩ := append_of_mem first
    rw [same, List.append_assoc] at around
    exact transGen_of_isChain around.right_of_append
  rcases mem_cons.1 second with rfl | second
  · exact back
  · obtain ⟨before, after, rfl⟩ := append_of_mem second
    have there : ((top :: (before ++ [b])) ++ (after ++ [top])).IsChain table.Composes := by simpa using around
    exact back.trans (transGen_of_isChain there.left_of_append)

theorem IsCycle.transGen {members : List StructId} (h : table.IsCycle members) :
    ∃ id, Relation.TransGen table.Composes id id := by
  obtain ⟨id, mem⟩ := exists_mem_of_ne_nil _ h.nonempty
  exact ⟨id, h.leads mem mem⟩

theorem not_transGen_of_acc {id : StructId} (h : Acc (fun b a => table.Composes a b) id) :
    ¬ Relation.TransGen table.Composes id id := by
  induction h with
  | intro id _ ih =>
    intro loop
    obtain ⟨b, step, back⟩ := Relation.TransGen.head'_iff.1 loop
    exact ih b step (.tail' back step)

end DeclTable

theorem Traced.eq_of_mem {table : DeclTable} {issues listed : List CompositionIssue} {memo : List (StructId × Resolution)}
    (h : Traced table issues memo listed) {id : StructId} {done other : Resolution} (first : (id, done) ∈ memo)
    (second : (id, other) ∈ memo) : done = other := by
  induction h with
  | nil => cases first
  | cons _ fresh _ ih =>
    rcases mem_cons.1 first with same | left <;> rcases mem_cons.1 second with again | right
    · cases same
      cases again
      rfl
    · cases same
      exact absurd rfl (fresh _ right)
    · cases again
      exact absurd rfl (fresh _ left)
    · exact ih left right

theorem DeclTable.IsCycle.next {table : DeclTable} {members : List StructId} (h : table.IsCycle members) {id : StructId} (mem : id ∈ members) :
    ∃ above ∈ members, table.Composes id above := by
  obtain ⟨top, rest, rfl⟩ := exists_cons_of_ne_nil h.nonempty
  have around : ((top :: rest) ++ [top]).IsChain table.Composes := h.composes
  obtain ⟨before, after, same⟩ := append_of_mem mem
  rw [same, List.append_assoc] at around
  have nonempty : after ++ [top] ≠ [] := by simp
  refine ⟨_, ?_, (isChain_cons.1 around.right_of_append).1 _ (head_mem_head? nonempty)⟩
  rcases mem_append.1 (head_mem nonempty) with isAfter | isTop
  · rw [same]
    exact mem_append_right _ (mem_cons_of_mem _ isAfter)
  · rw [mem_singleton.1 isTop]
    exact mem_cons_self

namespace Compositions

variable {table : DeclTable}

/-- The members of the cycles that are reported. -/
def cycles (compositions : Compositions) : List (List StructId) :=
  cyclesOf compositions.issues

def searched (table : DeclTable) (first : Nat) : CompositionSearch :=
  ((SearchM.resolveEach table (table.group first)).run {}).2

theorem ofTable_eq (table : DeclTable) :
    ofTable table = ⟨table.firsts.flatMap fun first => (searched table first).memo,
      table.firsts.flatMap fun first => (searched table first).issues⟩ := by
  rw [ofTable, DeclTable.components_eq, map_map, flatMap_map, flatMap_map]
  rfl

theorem searched_sound (numbered : table.Numbered) (first : Nat) :
    (searched table first).Sound table (fun id => table.labels[id.index]? = some first) ∧
      ∀ id, table.labels[id.index]? = some first → (table.struct? id).isSome →
        ∃ done, (id, done) ∈ (searched table first).memo := by
  obtain ⟨_, sound, finished⟩ := SearchM.resolveEach_sound
    (fun a b composes here => (DeclTable.labels_composes numbered composes).symm.trans here)
    (table.group first) {} rfl (fun id mem => DeclTable.mem_group.1 mem) .initial
  exact ⟨sound, fun id here => finished id (DeclTable.mem_group.2 here)⟩

theorem cycles_ofTable_eq (table : DeclTable) :
    (ofTable table).cycles = table.firsts.flatMap fun first => cyclesOf (searched table first).issues := by
  rw [cycles, ofTable_eq, cyclesOf, filterMap_flatMap]
  rfl

theorem cycles_isCycle (numbered : table.Numbered) : ∀ members ∈ (ofTable table).cycles, table.IsCycle members := by
  intro members mem
  rw [cycles_ofTable_eq] at mem
  obtain ⟨first, _, mem⟩ := mem_flatMap.1 mem
  exact ((searched_sound numbered first).1.cycles members mem).1

theorem find?_ofTable (numbered : table.Numbered) {id : StructId} {done : Resolution} :
    (ofTable table).find? id = some done ↔ ∃ first ∈ table.firsts, (id, done) ∈ (searched table first).memo := by
  have mem_iff : ∀ other, (id, other) ∈ (ofTable table).resolutions ↔
      ∃ first ∈ table.firsts, (id, other) ∈ (searched table first).memo := by
    intro other
    rw [ofTable_eq, mem_flatMap]
  constructor
  · exact fun found => (mem_iff done).1 (mem_of_lookup found)
  · intro ⟨first, isOne, mem⟩
    obtain ⟨other, looked⟩ := lookup_of_mem ((mem_iff done).2 ⟨first, isOne, mem⟩)
    obtain ⟨second, _, again⟩ := (mem_iff other).1 (mem_of_lookup looked)
    obtain ⟨sound, _⟩ := searched_sound numbered first
    have here := (sound.memo _ mem).2
    have there := ((searched_sound numbered second).1.memo _ again).2
    cases Option.some.inj (here.symm.trans there)
    rw [find?, looked, sound.traced.eq_of_mem mem again]

/-- Whether a struct was found to be on a cycle. -/
def isCycle (compositions : Compositions) (id : StructId) : Bool :=
  match compositions.find? id with
  | some resolution => resolution.isCycle
  | none => false

/-- The structs that are found on cycles are the members of the cycles that are reported. -/
theorem isCycle_iff (numbered : table.Numbered) {id : StructId} :
    (ofTable table).isCycle id = true ↔ ∃ members ∈ (ofTable table).cycles, id ∈ members := by
  have settled : ∀ {first done}, first ∈ table.firsts → (id, done) ∈ (searched table first).memo →
      ((ofTable table).isCycle id = true ↔ OnReported (searched table first).issues id) := by
    intro first done isOne mem
    rw [isCycle, (find?_ofTable numbered).2 ⟨first, isOne, mem⟩]
    exact (searched_sound numbered first).1.settled _ mem
  rw [cycles_ofTable_eq]
  constructor
  · intro isCyclic
    cases looked : (ofTable table).find? id with
    | none => simp [isCycle, looked] at isCyclic
    | some done =>
      obtain ⟨first, isOne, mem⟩ := (find?_ofTable numbered).1 looked
      obtain ⟨members, reported, isMember⟩ := (settled isOne mem).1 isCyclic
      exact ⟨members, mem_flatMap.2 ⟨first, isOne, reported⟩, isMember⟩
  · rintro ⟨members, reported, isMember⟩
    obtain ⟨first, isOne, reported⟩ := mem_flatMap.1 reported
    obtain ⟨sound, finished⟩ := searched_sound numbered first
    obtain ⟨isCycle, here⟩ := sound.cycles members reported
    obtain ⟨_, _, own, found, _⟩ := isCycle.next isMember
    obtain ⟨done, mem⟩ := finished id (here id isMember) (by rw [found]; rfl)
    exact (settled isOne mem).2 ⟨members, reported, isMember⟩

theorem acc_of_unmarked (numbered : table.Numbered) (id : StructId) :
    Acc (fun above id => table.Composes id above ∧ (ofTable table).isCycle id = false) id := by
  by_cases declared : (table.struct? id).isSome
  · obtain ⟨first, isOne, here⟩ := table.mem_firsts declared
    obtain ⟨done, mem⟩ := (searched_sound numbered first).2 id here declared
    -- The induction is over what is finished, the first finished first.
    have each : ∀ memo listed, Traced table (searched table first).issues memo listed →
        memo ⊆ (searched table first).memo → ∀ entry ∈ memo,
          Acc (fun above id => table.Composes id above ∧ (ofTable table).isCycle id = false) entry.1 := by
      intro memo listed traced
      induction traced with
      | nil => simp
      | cons _ _ composed ih =>
        intro inside
        have before := ih fun other mem => inside (mem_cons_of_mem _ mem)
        refine forall_mem_cons.2 ⟨.intro _ fun above ⟨composes, unmarked⟩ => ?_, before⟩
        rw [isCycle, (find?_ofTable numbered).2 ⟨first, isOne, inside mem_cons_self⟩] at unmarked
        obtain ⟨own, _, ⟨_, members, same⟩ | ⟨finished, _⟩⟩ := composed
        · rw [same] at unmarked
          cases unmarked
        · obtain ⟨done, mem⟩ := finished above composes
          exact before _ mem
    exact each _ _ (searched_sound numbered first).1.traced (List.Subset.refl _) _ mem
  · refine .intro _ fun above ⟨⟨own, found, _⟩, _⟩ => ?_
    rw [found] at declared
    exact absurd rfl declared

/-- Where no cycle is reported, going from structs to what they compose comes to an end. -/
theorem acc_of_cycles_eq_nil (numbered : table.Numbered) (none : (ofTable table).cycles = []) (id : StructId) :
    Acc (fun b a => table.Composes a b) id := by
  refine Subrelation.accessible (fun {b a} composes => ⟨composes, ?_⟩) (acc_of_unmarked numbered id)
  rw [Bool.eq_false_iff, ne_eq, isCycle_iff numbered, none]
  exact fun ⟨_, mem, _⟩ => by cases mem

/-- Of two cycles that are reported, none has the members of the other: within a group the members are
compared, and different groups have no members in common. -/
theorem cycles_pairwise (numbered : table.Numbered) :
    (ofTable table).cycles.Pairwise fun a b => ¬ ∀ id, id ∈ a ↔ id ∈ b := by
  rw [cycles_ofTable_eq, pairwise_flatMap]
  refine ⟨fun first _ => ?_, ?_⟩
  · have sound := (searched_sound numbered first).1
    have once := sound.once
    rw [sound.reported, nodup_reverse] at once
    refine (pairwise_map.1 once).imp_of_mem fun ha hb different same => different ?_
    exact memberKey_eq (sound.cycles _ ha).1.nodup (sound.cycles _ hb).1.nodup same
  · refine table.nodup_firsts.imp fun different a ha b hb same => different ?_
    obtain ⟨isCycle, left⟩ := (searched_sound numbered _).1.cycles a ha
    obtain ⟨_, right⟩ := (searched_sound numbered _).1.cycles b hb
    obtain ⟨id, mem⟩ := exists_mem_of_ne_nil a isCycle.nonempty
    exact Option.some.inj ((left id mem).symm.trans (right id ((same id).1 mem)))

theorem resolve_depth {depth : Nat} (deep : table.structs.length < depth) (id : StructId) {s : CompositionSearch}
    (empty : s.stack = []) :
    (SearchM.resolve table depth id).run s = (SearchM.resolve table (table.structs.length + 1) id).run s := by
  obtain ⟨more, rfl⟩ := Nat.exists_eq_add_of_lt deep
  rw [show table.structs.length + more + 1 = more + (table.structs.length + 1) by omega]
  refine (SearchM.resolve_add more _ id s ?_ ?_ ?_).1
  · rw [empty]
    exact nodup_nil
  · rw [empty]
    exact fun _ mem => by cases mem
  · rw [empty]
    exact Nat.lt_succ_self _

/-- The search through composition lists comes to an end before any greater depth would matter. A cycle is
reported if and only if a struct composes itself, directly or through others; what is reported are different
structs each of which composes the next, and the last the first; and no two reports have the same members. -/
theorem cycles_reported_iff (bounds : BoundTable) (units : List SourceUnit) :
    let table := (Collected.ofUnits bounds units).declared.table
    (∀ depth id, table.structs.length < depth → ∀ s : CompositionSearch, s.stack = [] →
      (SearchM.resolve table depth id).run s = (SearchM.resolve table (table.structs.length + 1) id).run s) ∧
    ((ofTable table).cycles ≠ [] ↔ ∃ id, Relation.TransGen table.Composes id id) ∧
    (∀ members ∈ (ofTable table).cycles, table.IsCycle members) ∧
    (ofTable table).cycles.Pairwise fun a b => ¬ ∀ id, id ∈ a ↔ id ∈ b := by
  intro table
  have numbered : table.Numbered := (Collected.ofUnits_regular bounds units).numbered
  refine ⟨fun depth id deep s empty => resolve_depth deep id empty, ⟨fun some => ?_, fun ⟨id, loop⟩ none => ?_⟩,
    cycles_isCycle numbered, cycles_pairwise numbered⟩
  · obtain ⟨members, mem⟩ := exists_mem_of_ne_nil _ some
    exact (cycles_isCycle numbered members mem).transGen
  · exact DeclTable.not_transGen_of_acc (acc_of_cycles_eq_nil numbered none id) loop

/-- A program whose structs compose each other as told, and declare nothing else. -/
def composingUnit (structs : List (String × List String)) : SourceUnit where
  id := ⟨0⟩
  declarations := structs.map fun (name, parents) =>
    .struct { name, composes := parents.map fun parent => ⟨.named parent [], {}⟩ }

/-- The first of three structs composes the others and they compose it, and the last composes itself. -/
example : (ofTable (Collected.ofUnits .standard
    [composingUnit [("A", ["B", "C"]), ("B", ["A"]), ("C", ["A", "C"])]]).declared.table).cycles =
      [[⟨0⟩, ⟨1⟩], [⟨0⟩, ⟨2⟩], [⟨2⟩]] := by
  cbv

end Compositions

end SemanticChecker
