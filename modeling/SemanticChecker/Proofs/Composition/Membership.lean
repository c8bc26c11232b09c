import SemanticChecker.Proofs.Composition.Composed

/-! Which structs are taken to be on a composition cycle. The search marks the structs between the two ends of
every way back that it finds, and these are on a cycle. Of every cycle it marks at least one struct, but not all
of them: a struct whose only way back leads through structs that are finished is composed like any other, and it
can even be constructed. Where cycles have no structs in common, exactly the structs on cycles are marked. -/
namespace SemanticChecker

open List Relation

theorem Traced.not_concrete {table : DeclTable} {issues listed : List CompositionIssue}
    {memo : List (StructId × Resolution)} (h : Traced table issues memo listed) : ∀ entry ∈ memo, entry.2.isCycle = true → entry.2.isConcrete = false := by
  induction h with
  | nil => simp
  | cons _ _ composed ih =>
    refine forall_mem_cons.2 ⟨fun marked => ?_, ih⟩
    obtain ⟨own, _, ⟨_, members, same⟩ | ⟨_, parents, tainted, same, _⟩⟩ := composed
    · rw [same]
      rfl
    · rw [same, StructDef.composeOf, Resolution.isCycle_compose] at marked
      cases marked

namespace DeclTable

variable {table : DeclTable}

instance (a b : StructId) : Decidable (table.Composes a b) :=
  inferInstanceAs (Decidable (∃ own ∈ table.struct? a, b ∈ own.shape.composes.map (·.id) ∧ (table.struct? b).isSome))

/-- Of the structs that a struct leads to, none composes two that lead back to it. -/
def Unbranched (table : DeclTable) (id : StructId) : Prop :=
  ∀ a b c, ReflTransGen table.Composes id a → table.Composes a b → table.Composes a c →
    ReflTransGen table.Composes b id → ReflTransGen table.Composes c id → b = c

theorem Unbranched.mem {id other : StructId} (h : table.Unbranched id) {members : List StructId}
    (isCycle : table.IsCycle members) (isOne : other ∈ members) (there : ReflTransGen table.Composes id other)
    (back : ReflTransGen table.Composes other id) : id ∈ members := by
  suffices all : ∀ last, ReflTransGen table.Composes other last →
      ReflTransGen table.Composes last id → last ∈ members from all id back .refl
  intro last way
  induction way with
  | refl => exact fun _ => isOne
  | @tail last above way step ih =>
    intro back
    have mem := ih (.head step back)
    obtain ⟨next, isNext, composes⟩ := isCycle.next mem
    have returns := ((isCycle.leads isNext mem).to_reflTransGen.tail step).trans back
    rw [h last above next (there.trans way) step composes back returns]
    exact isNext

end DeclTable

namespace Compositions

variable {table : DeclTable}

theorem exists_isCycle (numbered : table.Numbered) {among : StructId → Prop}
    (onward : ∀ id, among id → ∃ above, among above ∧ table.Composes id above) {id : StructId} (isOne : among id) :
    ∃ other, among other ∧ (ofTable table).isCycle other = true := by
  induction acc_of_unmarked numbered id with
  | intro id _ ih =>
    cases marked : (ofTable table).isCycle id with
    | true => exact ⟨id, isOne, marked⟩
    | false =>
      obtain ⟨above, isAbove, composes⟩ := onward id isOne
      exact ih above ⟨composes, marked⟩ isAbove

theorem not_concrete_of_isCycle (numbered : table.Numbered) {id : StructId} (marked : (ofTable table).isCycle id = true) :
    (ofTable table).isConcrete id = false := by
  cases looked : (ofTable table).find? id with
  | none => simp [isCycle, looked] at marked
  | some done =>
    obtain ⟨first, _, mem⟩ := (find?_ofTable numbered).1 looked
    simp only [isCycle, isConcrete, looked] at marked ⊢
    exact (searched_sound numbered first).1.traced.not_concrete _ mem marked

/-- The structs that are found to be on cycles are the members of the cycles that are reported. They compose
themselves, directly or through others, and are never concrete. Every cycle has such a struct. A struct from
which no two ways lead back to it is found if and only if it composes itself. -/
theorem found_on_cycle_iff (bounds : BoundTable) (units : List SourceUnit) :
    let table := (Collected.ofUnits bounds units).declared.table
    let compositions := ofTable table
    (∀ id, compositions.isCycle id = true ↔ ∃ members ∈ compositions.cycles, id ∈ members) ∧
    (∀ id, compositions.isCycle id = true →
      Relation.TransGen table.Composes id id ∧ compositions.isConcrete id = false) ∧
    (∀ members, table.IsCycle members → ∃ id ∈ members, compositions.isCycle id = true) ∧
    ∀ id, table.Unbranched id → (compositions.isCycle id = true ↔ Relation.TransGen table.Composes id id) := by
  intro table compositions
  have numbered : table.Numbered := (Collected.ofUnits_regular bounds units).numbered
  have loops : ∀ id, compositions.isCycle id = true → TransGen table.Composes id id := by
    intro id marked
    obtain ⟨members, reported, mem⟩ := (isCycle_iff numbered).1 marked
    exact (cycles_isCycle numbered members reported).leads mem mem
  refine ⟨fun id => isCycle_iff numbered, fun id marked => ⟨loops id marked, not_concrete_of_isCycle numbered marked⟩,
    fun members isCycle => ?_, fun id unbranched => ⟨loops id, fun loop => ?_⟩⟩
  · obtain ⟨top, mem⟩ := exists_mem_of_ne_nil members isCycle.nonempty
    exact exists_isCycle numbered (fun _ => isCycle.next) mem
  · -- Among the structs on ways from the struct back to it, one is found, and with it the cycle it is on.
    have onward : ∀ a, ReflTransGen table.Composes id a ∧ TransGen table.Composes a id →
        ∃ b, (ReflTransGen table.Composes id b ∧ TransGen table.Composes b id) ∧ table.Composes a b := by
      rintro a ⟨there, back⟩
      obtain ⟨b, step, back⟩ := TransGen.head'_iff.1 back
      exact ⟨b, ⟨there.tail step, loop.trans_right back⟩, step⟩
    obtain ⟨other, ⟨there, back⟩, marked⟩ := exists_isCycle numbered onward ⟨.refl, loop⟩
    obtain ⟨members, reported, mem⟩ := (isCycle_iff numbered).1 marked
    exact (isCycle_iff numbered).2 ⟨members, reported,
      unbranched.mem (cycles_isCycle numbered members reported) mem there back.to_reflTransGen⟩

/-- A struct on a cycle with another one, which also composes a third. -/
theorem found_on_cycle_iff_pair :
    let table := (Collected.ofUnits .standard
      [composingUnit [("A", ["B"]), ("B", ["C", "A"]), ("C", []), ("D", ["A", "B"])]]).declared.table
    table.Unbranched ⟨0⟩ ∧ (ofTable table).isCycle ⟨0⟩ = true ∧ Relation.TransGen table.Composes ⟨0⟩ ⟨0⟩ := by
  intro table
  have numbered : table.Numbered := (Collected.ofUnits_regular _ _).numbered
  have links : table.links = [(0, 1), (1, 2), (1, 0), (3, 0), (3, 1)] := by decide +kernel
  have composes : ∀ a b, table.Composes a b →
      (a.index, b.index) ∈ [(0, 1), (1, 2), (1, 0), (3, 0), (3, 1)] := fun a b step =>
    links ▸ DeclTable.mem_links numbered step
  have ending : ∀ other, ReflTransGen table.Composes other ⟨0⟩ → other.index ≠ 2 := by
    intro other back isThird
    rcases back.cases_head with rfl | ⟨next, step, _⟩
    · cases isThird
    · simpa [isThird] using composes other next step
  have starting : ∀ other, ReflTransGen table.Composes ⟨0⟩ other → other.index ≠ 3 := by
    intro other there isLast
    rcases there.cases_tail with rfl | ⟨previous, _, step⟩
    · cases isLast
    · simpa [isLast] using composes previous other step
  have unbranched : table.Unbranched ⟨0⟩ := by
    intro a b c there first second left right
    have reached := starting a there
    have left := ending b left
    have right := ending c right
    have first := composes a b first
    have second := composes a c second
    simp only [mem_cons, Prod.mk.injEq, not_mem_nil, or_false] at first second
    have same : b.index = c.index := by omega
    exact congrArg StructId.mk same
  have marked : (ofTable table).isCycle ⟨0⟩ = true := by decide +kernel
  exact ⟨unbranched, marked, ((found_on_cycle_iff _ _).2.2.2 ⟨0⟩ unbranched).1 marked⟩

/-- A struct can be on a cycle and not be found there: its way back leads through structs that are finished
before it. It can even be constructed. -/
theorem concrete_on_cycle :
    let table := (Collected.ofUnits .standard
      [composingUnit [("A", ["B", "C", "D"]), ("B", ["A"]), ("C", ["B"]), ("D", ["C"])]]).declared.table
    TransGen table.Composes ⟨3⟩ ⟨3⟩ ∧ (ofTable table).isCycle ⟨3⟩ = false ∧
      (ofTable table).isConcrete ⟨3⟩ = true := by
  intro table
  have around : table.IsCycle [⟨0⟩, ⟨3⟩, ⟨2⟩, ⟨1⟩] := ⟨by simp, by decide, by decide +kernel⟩
  exact ⟨around.leads (by simp) (by simp), by decide +kernel, by decide +kernel⟩

end Compositions

end SemanticChecker
