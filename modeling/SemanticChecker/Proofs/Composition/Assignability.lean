import SemanticChecker.Check.Program
import SemanticChecker.Proofs.Composition.Composed

/-! Assignability is the order of composition. A struct is stored with all its ancestors, seen through the names of
its own type parameters, and these are replaced by its arguments where a type is compared with another. That comes
to following the composition lists with the arguments put in at every step. -/
namespace SemanticChecker

open Relation

namespace DeclTable

/-- A struct applied to arguments composes a type: one that its composition list names, with the arguments put in
for its type parameters. -/
def TypeComposes (table : DeclTable) (t above : Ty) : Prop :=
  ∃ id arguments own parent, t = .struct id arguments ∧ table.struct? id = some own ∧ parent ∈ own.shape.composes ∧
    above = parent.type.instantiate (own.instantiation arguments)

theorem eq_struct_of_typeComposes {table : DeclTable} {t above : Ty} (way : TransGen table.TypeComposes t above) :
    ∃ id arguments, t = .struct id arguments := by
  obtain ⟨_, ⟨id, arguments, _, _, same, _⟩, _⟩ := TransGen.head'_iff.1 way
  exact ⟨id, arguments, same⟩

end DeclTable

theorem ComposedParent.Applies.type_instantiate {table : DeclTable} {own other : StructDef} {parent : ComposedParent}
    {inner : List Ty} (h : parent.Applies table own inner other) (σ : Instantiation) :
    parent.type.instantiate σ = .struct parent.id (inner.map (Ty.replace σ)) := by
  rw [h.type, Ty.instantiate_eq_replace, Ty.replace, Ty.replaceAll_eq_map]

namespace Compositions

variable {table : DeclTable}

theorem typeComposes_iff (regular : table.Regular) (none : (ofTable table).cycles = []) {id : StructId}
    {own : StructDef} (found : table.struct? id = some own) {layout : Layout}
    (looked : (ofTable table).layout? id = some layout) {arguments : List Ty}
    (count : (Ty.namesOf own.typeParameters).length = arguments.length) {t : Ty} :
    TransGen table.TypeComposes (.struct id arguments) t ↔
      ∃ ancestor ∈ layout.ancestors, ancestor.instantiate (own.instantiation arguments) = t := by
  -- The induction is on how far a struct is from those that compose nothing.
  induction acc_of_cycles_eq_nil regular.numbered none id generalizing own layout arguments t with
  | intro id _ ih =>
    let σ := own.instantiation arguments
    have above : ∀ parent ∈ own.shape.composes, ∃ top, (ofTable table).layout? parent.id = some top ∧
        (TransGen table.TypeComposes (parent.type.instantiate σ) t ↔ ∃ ancestor ∈ top.ancestors,
          (ancestor.instantiate (Merge.parentInstantiation table parent.type)).instantiate σ = t) := by
      intro parent isParent
      obtain ⟨inner, other, applies⟩ := regular.composes id own found parent isParent
      obtain ⟨top, isTop⟩ := layout?_isSome regular.numbered (by rw [applies.declared]; rfl)
      have outer : (Ty.namesOf other.typeParameters).length = (inner.map (Ty.replace σ)).length := by
        rw [applies.count, List.length_map]
      have closed := (layout?_composed regular.numbered isTop).scoped regular applies.declared
      have twice : ∀ ancestor ∈ top.ancestors,
          (ancestor.instantiate (Merge.parentInstantiation table parent.type)).instantiate σ =
            ancestor.instantiate (other.instantiation (inner.map (Ty.replace σ))) := by
        intro ancestor mem
        simp only [applies.parentInstantiation, Ty.instantiate_eq_replace]
        exact Ty.replace_ofArguments applies.count fun name known => .inl (closed.ancestors ancestor mem known)
      refine ⟨top, isTop, ?_⟩
      rw [applies.type_instantiate, ih parent.id (applies.composes found isParent) applies.declared isTop outer]
      exact exists_congr fun ancestor => and_congr_right fun mem => by rw [twice ancestor mem]
    constructor
    · intro way
      obtain ⟨between, ⟨_, _, again, parent, same, known, isParent, rfl⟩, onward⟩ := TransGen.head'_iff.1 way
      cases same
      cases found.symm.trans known
      rcases reflTransGen_iff_eq_or_transGen.1 onward with rfl | onward
      · exact ⟨parent.type, (mem_ancestors_iff regular none found looked).2 ⟨parent, isParent, .inl rfl⟩, rfl⟩
      · obtain ⟨top, isTop, reached⟩ := above parent isParent
        obtain ⟨ancestor, mem, rfl⟩ := reached.1 onward
        refine ⟨_, (mem_ancestors_iff regular none found looked).2 ⟨parent, isParent, .inr ?_⟩, rfl⟩
        exact ⟨top, isTop, ancestor, mem, rfl⟩
    · rintro ⟨_, mem, rfl⟩
      obtain ⟨parent, isParent, rfl | ⟨top, isTop, ancestor, isAncestor, rfl⟩⟩ :=
        (mem_ancestors_iff regular none found looked).1 mem
      · exact .single ⟨id, arguments, own, parent, rfl, found, isParent, rfl⟩
      · obtain ⟨again, known, reached⟩ := above parent isParent
        cases isTop.symm.trans known
        exact .head ⟨id, arguments, own, parent, rfl, found, isParent, rfl⟩ (reached.2 ⟨ancestor, isAncestor, rfl⟩)

end Compositions

namespace DeclTable.Regular

variable {table : DeclTable}

theorem composes_of_typeComposes (regular : table.Regular) {id : StructId} {arguments : List Ty} {t : Ty}
    (way : TransGen table.TypeComposes (.struct id arguments) t) :
    ∃ above others, t = .struct above others ∧ TransGen table.Composes id above := by
  have step : ∀ {id arguments t}, table.TypeComposes (.struct id arguments) t →
      ∃ above others, t = .struct above others ∧ table.Composes id above := by
    rintro id arguments _ ⟨_, _, own, parent, same, found, mem, rfl⟩
    cases same
    obtain ⟨inner, other, applies⟩ := regular.composes id own found parent mem
    exact ⟨parent.id, _, applies.type_instantiate _, applies.composes found mem⟩
  induction way with
  | single first =>
    obtain ⟨above, others, same, composes⟩ := step first
    exact ⟨above, others, same, .single composes⟩
  | tail _ last ih =>
    obtain ⟨between, others, rfl, way⟩ := ih
    obtain ⟨above, others, same, composes⟩ := step last
    exact ⟨above, others, same, way.tail composes⟩

end DeclTable.Regular

namespace Ty

mutual

/-- Whether a type does not mention the error type and applies every struct in it to as many arguments as the struct
is declared with. The arguments of a bound are not part of the type it restricts. -/
def Proper (table : DeclTable) : Ty → Prop
  | .tuple slots => ProperAll table slots
  | .list element => Proper table element
  | .dict key value => Proper table key ∧ Proper table value
  | .struct id arguments =>
    (∀ own ∈ table.struct? id, arguments.length = own.decl.typeParameters.length) ∧ ProperAll table arguments
  | .function parameters returns => ProperAll table parameters ∧ ProperAll table returns
  | .error => False
  | .primitive _ | .enum _ | .parameter _ | .bounded _ _ _ | .slot _ => True

def ProperAll (table : DeclTable) : List Ty → Prop
  | [] => True
  | t :: ts => Proper table t ∧ ProperAll table ts

end

theorem Proper.isError {table : DeclTable} {t : Ty} (h : t.Proper table) : t.isError = false := by
  cases t with
  | error => exact h.elim
  | _ => rfl

end Ty

namespace CheckContext

variable {ctx : CheckContext}

theorem isAssignable_self (t : Ty) : ctx.isAssignable t t = true := by
  cases t <;> simp [isAssignable]

theorem areAssignable_iff {slots found : List Ty} : ctx.areAssignable slots found = true ↔
    List.Forall₂ (fun expected actual => ctx.isAssignable expected actual = true) slots found := by
  induction slots generalizing found with
  | nil => cases found <;> simp [areAssignable]
  | cons slot slots ih => cases found <;> simp [areAssignable, ih]

theorem isAssignable_tuple {slots found : List Ty} :
    ctx.isAssignable (.tuple slots) (.tuple found) = true ↔ ctx.areAssignable slots found = true := by
  have self : slots = found → ctx.areAssignable slots found = true := by
    rintro rfl
    exact areAssignable_iff.2 (List.forall₂_same.2 fun t _ => isAssignable_self t)
  simpa [isAssignable, Ty.isError] using self

theorem areAssignable_trans {as bs cs : List Ty}
    (each : ∀ c ∈ cs, ∀ a b, a.Proper ctx.table → b.Proper ctx.table → c.Proper ctx.table →
      ctx.isAssignable a b = true → ctx.isAssignable b c = true → ctx.isAssignable a c = true)
    (pas : Ty.ProperAll ctx.table as) (pbs : Ty.ProperAll ctx.table bs) (pcs : Ty.ProperAll ctx.table cs)
    (first : ctx.areAssignable as bs = true) (second : ctx.areAssignable bs cs = true) :
    ctx.areAssignable as cs = true := by
  rw [areAssignable_iff] at first second ⊢
  induction first generalizing cs with
  | nil => exact second
  | cons left _ ih =>
    cases second with
    | cons right rights =>
      obtain ⟨head, tail⟩ := List.forall_mem_cons.1 each
      exact .cons (head _ _ pas.1 pbs.1 pcs.1 left right) (ih tail pas.2 pbs.2 pcs.2 rights)

theorem areAssignable_antisymm {as bs : List Ty}
    (each : ∀ a ∈ as, ∀ b, a.Proper ctx.table → b.Proper ctx.table →
      ctx.isAssignable a b = true → ctx.isAssignable b a = true → a = b)
    (pas : Ty.ProperAll ctx.table as) (pbs : Ty.ProperAll ctx.table bs) (first : ctx.areAssignable as bs = true)
    (second : ctx.areAssignable bs as = true) : as = bs := by
  rw [areAssignable_iff] at first second
  induction first with
  | nil => rfl
  | cons left _ ih =>
    cases second with
    | cons right rights =>
      obtain ⟨head, tail⟩ := List.forall_mem_cons.1 each
      rw [head _ pas.1 pbs.1 left right, ih tail pas.2 pbs.2 rights]

section Composed

variable (regular : ctx.table.Regular) (composed : ctx.compositions = .ofTable ctx.table)
  (none : (Compositions.ofTable ctx.table).cycles = [])
include regular composed none

theorem hasAncestor_iff {id : StructId} {arguments : List Ty} {expected : Ty}
    (proper : (Ty.struct id arguments).Proper ctx.table) :
    ctx.hasAncestor id arguments expected = true ↔ TransGen ctx.table.TypeComposes (.struct id arguments) expected := by
  rw [hasAncestor, layout?, composed, instantiation]
  cases found : ctx.table.struct? id with
  | none =>
    have undeclared : ¬ TransGen ctx.table.TypeComposes (.struct id arguments) expected := by
      intro way
      obtain ⟨_, ⟨_, _, own, _, same, known, _⟩, _⟩ := TransGen.head'_iff.1 way
      cases same
      cases found.symm.trans known
    rw [Compositions.layout?_eq_none regular.numbered found]
    simpa using undeclared
  | some own =>
    obtain ⟨layout, looked⟩ := Compositions.layout?_isSome regular.numbered (by rw [found]; rfl)
    have count := (regular.arity id own found).trans (proper.1 own found).symm
    rw [looked, Compositions.typeComposes_iff regular none found looked count]
    simp

/-- A type may be stored where another is expected if they are equal, if the other one is above it, or if they are
tuples and that holds slot by slot. -/
theorem isAssignable_iff {expected actual : Ty} (asked : expected.Proper ctx.table) (given : actual.Proper ctx.table) :
    ctx.isAssignable expected actual = true ↔ expected = actual ∨ TransGen ctx.table.TypeComposes actual expected ∨
      ∃ slots found, expected = .tuple slots ∧ actual = .tuple found ∧
        List.Forall₂ (fun expected actual => ctx.isAssignable expected actual = true) slots found := by
  have notError := asked.isError
  have noWay : (∀ id arguments, actual ≠ .struct id arguments) → ¬ TransGen ctx.table.TypeComposes actual expected := by
    intro isOther way
    obtain ⟨id, arguments, same⟩ := DeclTable.eq_struct_of_typeComposes way
    exact isOther id arguments same
  cases actual with
  | struct id arguments => simp [isAssignable, notError, hasAncestor_iff regular composed none given]
  | tuple found =>
    cases expected with
    | tuple slots =>
      rw [isAssignable_tuple, areAssignable_iff]
      constructor
      · exact fun each => .inr (.inr ⟨slots, found, rfl, rfl, each⟩)
      · rintro (same | way | ⟨_, _, left, right, each⟩)
        · cases same
          exact List.forall₂_same.2 fun t _ => isAssignable_self t
        · exact absurd way (noWay (by simp))
        · cases left
          cases right
          exact each
    | _ => simp [isAssignable, notError, noWay]
  | error => exact given.elim
  | _ => simp [isAssignable, notError, noWay]

theorem isAssignable_cases {expected actual : Ty} (asked : expected.Proper ctx.table) (given : actual.Proper ctx.table)
    (done : ctx.isAssignable expected actual = true) :
    (∃ slots found, expected = .tuple slots ∧ actual = .tuple found ∧ ctx.areAssignable slots found = true) ∨
      ReflTransGen ctx.table.TypeComposes actual expected ∧
        (∀ slots, expected ≠ .tuple slots) ∧ ∀ found, actual ≠ .tuple found := by
  rcases (isAssignable_iff regular composed none asked given).1 done with rfl | way | ⟨slots, found, left, right, each⟩
  · cases expected with
    | tuple slots => exact .inl ⟨slots, slots, rfl, rfl, isAssignable_tuple.1 done⟩
    | _ => exact .inr ⟨.refl, by simp, by simp⟩
  · obtain ⟨id, arguments, rfl⟩ := DeclTable.eq_struct_of_typeComposes way
    obtain ⟨above, others, rfl, _⟩ := regular.composes_of_typeComposes way
    exact .inr ⟨way.to_reflTransGen, by simp, by simp⟩
  · exact .inl ⟨slots, found, left, right, areAssignable_iff.2 each⟩

theorem isAssignable_trans {a b c : Ty} (pa : a.Proper ctx.table) (pb : b.Proper ctx.table) (pc : c.Proper ctx.table)
    (first : ctx.isAssignable a b = true) (second : ctx.isAssignable b c = true) : ctx.isAssignable a c = true := by
  rcases isAssignable_cases regular composed none pb pc second with ⟨bs, cs, rfl, rfl, right⟩ | ⟨right, single, _⟩
  · rcases isAssignable_cases regular composed none pa pb first with ⟨as, _, rfl, same, left⟩ | ⟨_, _, single⟩
    · cases same
      refine isAssignable_tuple.2 (areAssignable_trans (fun c mem a b => ?_) pa pb pc left right)
      have smaller := List.sizeOf_lt_of_mem mem
      exact isAssignable_trans
    · exact absurd rfl (single bs)
  · rcases isAssignable_cases regular composed none pa pb first with ⟨_, bs, _, same, _⟩ | ⟨left, _⟩
    · exact absurd same (single bs)
    · rw [isAssignable_iff regular composed none pa pc]
      exact (reflTransGen_iff_eq_or_transGen.1 (right.trans left)).imp_right .inl
termination_by sizeOf c

theorem isAssignable_antisymm {a b : Ty} (pa : a.Proper ctx.table) (pb : b.Proper ctx.table)
    (first : ctx.isAssignable a b = true) (second : ctx.isAssignable b a = true) : a = b := by
  rcases isAssignable_cases regular composed none pa pb first with ⟨as, bs, rfl, rfl, left⟩ | ⟨left, single, _⟩
  · refine congrArg Ty.tuple (areAssignable_antisymm (fun a mem b => ?_) pa pb left (isAssignable_tuple.1 second))
    have smaller := List.sizeOf_lt_of_mem mem
    exact isAssignable_antisymm
  · rcases isAssignable_cases regular composed none pb pa second with ⟨_, as, _, same, _⟩ | ⟨right, _⟩
    · exact absurd same (single as)
    · rcases reflTransGen_iff_eq_or_transGen.1 left with same | left
      · exact same
      · -- Types above each other would put a struct above itself.
        obtain ⟨id, arguments, rfl⟩ := DeclTable.eq_struct_of_typeComposes left
        obtain ⟨_, _, same, loop⟩ := regular.composes_of_typeComposes (left.trans_left right)
        cases same
        exact absurd loop (DeclTable.not_transGen_of_acc (Compositions.acc_of_cycles_eq_nil regular.numbered none id))
termination_by sizeOf a

end Composed

/-- Where no struct composes itself, a type may be stored where another is expected exactly if they are equal, if the
other one is reached from it through composition lists with the arguments put in, or if they are tuples with as many
slots and that holds slot by slot. This is an order. -/
theorem isAssignable_isOrder (options : CheckOptions) (units : List SourceUnit) :
    let ctx := (CheckReport.ofUnits options units).context
    (∀ id, ¬ TransGen ctx.table.Composes id id) →
    (∀ expected actual : Ty, expected.Proper ctx.table → actual.Proper ctx.table →
      (ctx.isAssignable expected actual = true ↔
        expected = actual ∨ TransGen ctx.table.TypeComposes actual expected ∨
          ∃ slots found, expected = .tuple slots ∧ actual = .tuple found ∧
            List.Forall₂ (fun expected actual => ctx.isAssignable expected actual = true) slots found)) ∧
    (∀ t : Ty, t.Proper ctx.table → ctx.isAssignable t t = true) ∧
    (∀ a b c : Ty, a.Proper ctx.table → b.Proper ctx.table → c.Proper ctx.table →
      ctx.isAssignable a b = true → ctx.isAssignable b c = true → ctx.isAssignable a c = true) ∧
    ∀ a b : Ty, a.Proper ctx.table → b.Proper ctx.table →
      ctx.isAssignable a b = true → ctx.isAssignable b a = true → a = b := by
  intro ctx acyclic
  have regular : ctx.table.Regular := Collected.ofUnits_regular .standard units
  have composed : ctx.compositions = .ofTable ctx.table := rfl
  have none : (Compositions.ofTable ctx.table).cycles = [] := by
    refine List.eq_nil_iff_forall_not_mem.2 fun members reported => ?_
    obtain ⟨id, loop⟩ := (Compositions.cycles_isCycle regular.numbered members reported).transGen
    exact acyclic id loop
  exact ⟨fun _ _ => isAssignable_iff regular composed none, fun t _ => isAssignable_self t,
    fun _ _ _ => isAssignable_trans regular composed none, fun _ _ => isAssignable_antisymm regular composed none⟩

/-- `struct Source[T]`, `struct Buffer[U](Source[List[U]])` and `struct Pair[T, U](Buffer[U], Source[T])`. -/
def buffersUnit : SourceUnit :=
  let applied (name : String) (arguments : List TypeExpr) : TypeExpr := ⟨.named name arguments, {}⟩
  { id := ⟨0⟩
    declarations := [
      .struct { name := "Source", typeParameters := [{ name := "T" }] },
      .struct {
        name := "Buffer", typeParameters := [{ name := "U" }]
        composes := [applied "Source" [applied "List" [applied "U" []]]] },
      .struct {
        name := "Pair", typeParameters := [{ name := "T" }, { name := "U" }]
        composes := [applied "Buffer" [applied "U" []], applied "Source" [applied "T" []]] }] }

/-- A `Pair[str, int64]` is a `Source[List[int64]]`, through `Buffer[int64]`, and not the other way round. -/
theorem isAssignable_isOrder_pair :
    let ctx := (CheckReport.ofUnits {} [buffersUnit]).context
    let source : Ty := .struct ⟨0⟩ [.list (.primitive .int64)]
    let pair : Ty := .struct ⟨2⟩ [.primitive .str, .primitive .int64]
    (∀ id, ¬ TransGen ctx.table.Composes id id) ∧ source.Proper ctx.table ∧ pair.Proper ctx.table ∧
      TransGen ctx.table.TypeComposes pair source ∧ ctx.isAssignable pair source = false := by
  intro ctx source pair
  have numbered : ctx.table.Numbered := (Collected.ofUnits_regular .standard [buffersUnit]).numbered
  have acyclic : ∀ id, ¬ TransGen ctx.table.Composes id id := by
    have links : ∀ link ∈ ctx.table.links, link.2 < link.1 := by decide +kernel
    have descends : ∀ {a b}, TransGen ctx.table.Composes a b → b.index < a.index := by
      intro a b way
      induction way with
      | single step => exact links _ (DeclTable.mem_links numbered step)
      | tail _ step ih => exact Nat.lt_trans (links _ (DeclTable.mem_links numbered step)) ih
    exact fun id loop => Nat.lt_irrefl _ (descends loop)
  have isSource : source.Proper ctx.table := ⟨by decide +kernel, trivial, trivial⟩
  have isPair : pair.Proper ctx.table := ⟨by decide +kernel, trivial, trivial, trivial⟩
  have stored : ctx.isAssignable source pair = true := by decide +kernel
  obtain ⟨iff, _, _, antisymm⟩ := isAssignable_isOrder {} [buffersUnit] acyclic
  refine ⟨acyclic, isSource, isPair, ?_, ?_⟩
  · exact (((iff source pair isSource isPair).1 stored).resolve_left (by simp [source, pair])).resolve_right
      (by simp [source])
  · refine Bool.eq_false_iff.2 fun back => ?_
    simpa [source, pair] using antisymm source pair isSource isPair stored back

end CheckContext

end SemanticChecker
