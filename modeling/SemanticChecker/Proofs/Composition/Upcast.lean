import SemanticChecker.Proofs.Composition.Composed

/-! What a struct can do for its ancestors. A value of a struct may stand where a value of one of its ancestors
is asked for, so every method of the ancestor should be there, with the type it has in the ancestor. Merging
sees to that in part only. Of two methods of one name that are inherited, it compares the types where one has a
body and the other has none; and a type parameter that a method has for itself is taken for one of the heir, if
they are of one name. -/
namespace SemanticChecker

open List

def Ty.application? : Ty → Option (StructId × List Ty)
  | .struct id arguments => some (id, arguments)
  | _ => none

theorem Ty.application?_eq_some {t : Ty} {id : StructId} {arguments : List Ty}
    (h : t.application? = some (id, arguments)) : t = .struct id arguments := by
  cases t with
  | struct =>
    cases h
    rfl
  | _ => cases h

instance (pool : List ResolvedMethod) : Decidable (Merge.Agree pool) :=
  inferInstanceAs (Decidable (∀ a ∈ pool, ∀ b ∈ pool, a.name = b.name →
    a.origin = b.origin ∨ a.hasBody = b.hasBody → a.signature.type = b.signature.type))

/-- The type parameters that methods mention, besides those of the struct they are seen from, are none of those
outside. -/
def Layout.ClearOf (layout : Layout) (inner outer : List Ty) : Prop :=
  ∀ method ∈ layout.methods, ∀ name ∈ method.signature.type.names,
    name ∈ Ty.namesOf inner ∨ name ∉ Ty.namesOf outer

instance (layout : Layout) (inner outer : List Ty) : Decidable (layout.ClearOf inner outer) :=
  inferInstanceAs (Decidable (∀ _ ∈ _, ∀ _ ∈ _, _ ∨ _))

namespace Compositions

section Definitions

variable (table : DeclTable)

def parentsOf (own : StructDef) : List (Ty × Layout) :=
  own.shape.composes.filterMap fun parent =>
    ((ofTable table).layout? parent.id).map fun layout => (parent.type, layout)

/-- A type applies a struct to arguments, and a layout has every method of that struct, of the type that the
method has for the arguments. -/
def Serves (layout : Layout) (t : Ty) : Prop :=
  ∃ application ∈ t.application?, ∃ above ∈ table.struct? application.1,
    (Ty.namesOf above.typeParameters).length = application.2.length ∧
    ∃ top ∈ (ofTable table).layout? application.1, ∀ method ∈ top.methods,
      ∃ mine ∈ layout.method? method.name,
        mine.signature.type = method.signature.type.instantiate (above.instantiation application.2)

/-- The methods of one name that a struct inherits have one type where merging does not compare them: those that
come from one struct, and those of which both have a body or neither has. -/
def Alike (own : StructDef) : Prop :=
  Merge.Agree (Merge.inherited table (parentsOf table own))

/-- The methods of the ancestors of a struct mention no type parameters that have the names of the struct's own,
unless they are those of the ancestor itself. -/
def Apart (own : StructDef) : Prop :=
  ∀ layout ∈ (ofTable table).layout? own.id, ∀ ancestor ∈ layout.ancestors, ∀ application ∈ ancestor.application?,
    ∀ above ∈ table.struct? application.1, ∀ top ∈ (ofTable table).layout? application.1,
      top.ClearOf above.typeParameters own.typeParameters

instance (layout : Layout) (t : Ty) : Decidable (Serves table layout t) :=
  inferInstanceAs (Decidable (∃ _ ∈ _, _))

instance (own : StructDef) : Decidable (Alike table own) :=
  inferInstanceAs (Decidable (Merge.Agree _))

instance (own : StructDef) : Decidable (Apart table own) :=
  inferInstanceAs (Decidable (∀ _ ∈ _, _))

end Definitions

variable {table : DeclTable}

variable {own : StructDef} {method : ResolvedMethod} {layout : Layout} {id : StructId}

/-- What a struct takes from its parents: of what is listed in the layout of each, all as the struct sees it. -/
theorem mem_flatMap_parentsOf {α : Type} {listed : Layout → List α} {seen : Ty × Layout → α → α} {a : α} :
    a ∈ (parentsOf table own).flatMap (fun parent => (listed parent.2).map (seen parent)) ↔
      ∃ parent ∈ own.shape.composes, ∃ top, (ofTable table).layout? parent.id = some top ∧
        ∃ base ∈ listed top, a = seen (parent.type, top) base := by
  constructor
  · intro mem
    obtain ⟨_, isOne, mem⟩ := mem_flatMap.1 mem
    obtain ⟨parent, isParent, pair⟩ := mem_filterMap.1 isOne
    obtain ⟨top, looked, rfl⟩ := Option.map_eq_some_iff.1 pair
    obtain ⟨base, isBase, rfl⟩ := mem_map.1 mem
    exact ⟨parent, isParent, top, looked, base, isBase, rfl⟩
  · rintro ⟨parent, isParent, top, looked, base, isBase, rfl⟩
    refine mem_flatMap.2 ⟨(parent.type, top), mem_filterMap.2 ⟨parent, isParent, ?_⟩, mem_map_of_mem isBase⟩
    rw [looked, Option.map_some]

theorem mem_inherited :
    method ∈ Merge.inherited table (parentsOf table own) ↔ ∃ parent ∈ own.shape.composes,
      ∃ top, (ofTable table).layout? parent.id = some top ∧ ∃ base ∈ top.methods,
        method = Merge.seen table (parent.type, top) base :=
  mem_flatMap_parentsOf

theorem method?_of_covers {items : List ResolvedMethod} {m : Merge} (h : m.Covers items)
    (same : layout.methods = m.methods) (mem : method ∈ m.methods) : layout.method? method.name = some method := by
  rw [Layout.method?, same]
  exact Merge.find?_of_nodup h.names mem

theorem Serves.method? {layout : Layout} {id : StructId} {arguments : List Ty}
    (h : Serves table layout (.struct id arguments)) {own : StructDef} (declared : table.struct? id = some own)
    {top : Layout} (looked : (ofTable table).layout? id = some top) {method : ResolvedMethod}
    (mem : method ∈ top.methods) : ∃ mine, layout.method? method.name = some mine ∧
      mine.signature.type = method.signature.type.instantiate (own.instantiation arguments) := by
  obtain ⟨_, isOne, _, again, _, _, looks, each⟩ := h
  cases isOne
  cases declared.symm.trans again
  cases looked.symm.trans looks
  exact each method mem

/-- What a parent serves, an heir serves as it sees it, if no names are captured. -/
theorem Serves.inherit {heir : Layout} {parameters arguments : List Ty} {t : Ty} (h : Serves table layout t)
    (apart : ∀ application ∈ t.application?, ∀ above ∈ table.struct? application.1,
      ∀ top ∈ (ofTable table).layout? application.1, top.ClearOf above.typeParameters parameters)
    (has : ∀ method ∈ layout.methods, ∃ mine, heir.method? method.name = some mine ∧
      mine.signature.type = method.signature.type.instantiate (.ofArguments parameters arguments)) :
    Serves table heir (t.instantiate (.ofArguments parameters arguments)) := by
  obtain ⟨⟨id, others⟩, isOne, above, declared, count, top, looked, each⟩ := h
  have seen : t.instantiate (.ofArguments parameters arguments) =
      .struct id (others.map (Ty.replace (.ofArguments parameters arguments))) := by
    rw [Ty.application?_eq_some isOne, Ty.instantiate_eq_replace, Ty.replace, Ty.replaceAll_eq_map]
  rw [seen]
  refine ⟨_, rfl, above, declared, by rw [count, length_map], top, looked, fun method mem => ?_⟩
  obtain ⟨between, isBetween, type⟩ := each method mem
  obtain ⟨mine, here, same⟩ := has between (mem_of_find?_eq_some isBetween)
  have name : between.name = method.name := by simpa using find?_some isBetween
  refine ⟨mine, name ▸ here, same.trans ?_⟩
  rw [type, Ty.instantiate_eq_replace, Ty.instantiate_eq_replace, Ty.instantiate_eq_replace]
  refine Ty.replace_ofArguments count fun other mentioned => ?_
  exact (apart _ isOne above declared top looked method mem other mentioned).imp_right Instantiation.get?_eq_none

theorem alike_of_serves (regular : table.Regular) (found : table.struct? id = some own)
    (serves : ∀ parent ∈ own.shape.composes, Serves table layout parent.type) : Alike table own := by
  have matched : ∀ method ∈ Merge.inherited table (parentsOf table own),
      ∃ mine, layout.method? method.name = some mine ∧ mine.signature.type = method.signature.type := by
    intro method mem
    obtain ⟨parent, isParent, top, looked, base, isBase, rfl⟩ := mem_inherited.1 mem
    obtain ⟨arguments, other, applies⟩ := regular.composes id own found parent isParent
    obtain ⟨mine, here, same⟩ := (applies.type ▸ serves parent isParent).method? applies.declared looked isBase
    exact ⟨mine, here, by rw [same, Merge.seen, Signature.type_instantiate, applies.parentInstantiation]⟩
  intro a ha b hb name _
  obtain ⟨first, isFirst, typeA⟩ := matched a ha
  obtain ⟨second, isSecond, typeB⟩ := matched b hb
  rw [name] at isFirst
  cases isFirst.symm.trans isSecond
  exact typeA.symm.trans typeB

theorem cycles_eq_nil (quiet : (ofTable table).issues = []) : (ofTable table).cycles = [] := by
  rw [cycles, quiet]
  rfl

section Quiet

variable (regular : table.Regular) (quiet : (ofTable table).issues = []) {id : StructId} {own : StructDef}
  {layout : Layout} (found : table.struct? id = some own) (looked : (ofTable table).layout? id = some layout)
include regular quiet found looked

theorem serves_parent (alike : Alike table own) {parent : ComposedParent} (mem : parent ∈ own.shape.composes) :
    Serves table layout parent.type := by
  cases layout?_composed regular.numbered looked with
  | alone _ cyclic => exact absurd (cycles_eq_nil quiet) cyclic
  | @merged _ _ parents tainted again named layouts _ complete reported =>
    cases found.symm.trans again
    have none : (own.mergeMembers table (parents.map fun pair => (pair.1.type, pair.2))).issues = [] := by
      refine subset_nil.1 ?_
      rw [← quiet]
      exact List.Subset.trans (own.issues_mergeMembers_subset table _ tainted) reported
    have inside : Merge.inherited table (parents.map fun pair => (pair.1.type, pair.2)) ⊆
        Merge.inherited table (parentsOf table own) := by
      intro method mem
      obtain ⟨_, isOne, mem⟩ := mem_flatMap.1 mem
      obtain ⟨pair, isPair, rfl⟩ := mem_map.1 isOne
      obtain ⟨base, isBase, rfl⟩ := mem_map.1 mem
      exact mem_inherited.2 ⟨pair.1, named pair isPair, pair.2, layouts pair isPair, base, isBase, rfl⟩
    have covers := StructDef.mergeMembers_covers none fun a ha b hb => alike a (inside ha) b (inside hb)
    obtain ⟨arguments, other, applies⟩ := regular.composes id own found parent mem
    obtain ⟨top, isPair⟩ := complete (cycles_eq_nil quiet) parent mem (by rw [applies.declared]; rfl)
    refine ⟨(parent.id, arguments), by rw [applies.type]; rfl, other, applies.declared, applies.count, top,
      layouts _ isPair, fun method isMethod => ?_⟩
    obtain ⟨mine, here, name, same⟩ := covers.all (Merge.seen table (parent.type, top) method)
      (mem_append_left _ (mem_flatMap.2 ⟨_, mem_map_of_mem isPair, mem_map_of_mem isMethod⟩))
    refine ⟨mine, ?_, same.trans ?_⟩
    · rw [show method.name = mine.name from name.symm]
      exact method?_of_covers covers (own.methods_compose table _ tainted) here
    · rw [Merge.seen, Signature.type_instantiate, applies.parentInstantiation]

end Quiet

/-- A struct serves its ancestors if all that is above it inherits alike methods and keeps names apart. -/
theorem serves_ancestor (regular : table.Regular) (quiet : (ofTable table).issues = [])
    (found : table.struct? id = some own) (looked : (ofTable table).layout? id = some layout) (alike : Alike table own)
    (higher : ∀ above other, Relation.TransGen table.Composes id above → table.struct? above = some other →
      Alike table other ∧ Apart table other) : ∀ ancestor ∈ layout.ancestors, Serves table layout ancestor := by
  -- The induction is on how far a struct is from those that compose nothing.
  induction acc_of_cycles_eq_nil regular.numbered (cycles_eq_nil quiet) id generalizing own layout with
  | intro id _ ih =>
    intro ancestor mem
    obtain ⟨parent, isParent, rfl | ⟨top, isTop, base, isBase, rfl⟩⟩ :=
      (mem_ancestors_iff regular (cycles_eq_nil quiet) found looked).1 mem
    · exact serves_parent regular quiet found looked alike isParent
    · obtain ⟨arguments, other, applies⟩ := regular.composes id own found parent isParent
      have composes := applies.composes found isParent
      obtain ⟨alikeAbove, apart⟩ := higher parent.id other (.single composes) applies.declared
      have served := ih parent.id composes applies.declared isTop alikeAbove
        (fun above other far => higher above other (.head composes far)) base isBase
      have here := serves_parent regular quiet found looked alike isParent
      rw [applies.type] at here
      rw [applies.parentInstantiation]
      refine served.inherit (apart top ?_ base isBase) fun method => here.method? applies.declared isTop
      rw [regular.numbered parent.id other applies.declared]
      exact isTop

/-- Where nothing is reported, a struct can stand for its parents exactly if the methods it inherits are alike
where merging does not compare them. It can stand for all its ancestors if that holds of everything above it,
too, and no names are captured on the way. -/
theorem serves_ancestors_iff (bounds : BoundTable) (units : List SourceUnit) :
    let table := (Collected.ofUnits bounds units).declared.table
    (ofTable table).issues = [] → ∀ id own layout, table.struct? id = some own →
      (ofTable table).layout? id = some layout →
      ((∀ parent ∈ own.shape.composes, Serves table layout parent.type) ↔ Alike table own) ∧
      ((∀ above other, Relation.TransGen table.Composes id above → table.struct? above = some other →
          Alike table other ∧ Apart table other) →
        ((∀ ancestor ∈ layout.ancestors, Serves table layout ancestor) ↔ Alike table own)) := by
  intro table quiet id own layout found looked
  have regular : table.Regular := Collected.ofUnits_regular bounds units
  refine ⟨⟨alike_of_serves regular found, fun alike parent => serves_parent regular quiet found looked alike⟩,
    fun higher => ⟨fun serves => ?_, fun alike => serves_ancestor regular quiet found looked alike higher⟩⟩
  refine alike_of_serves regular found fun parent mem => serves _ ?_
  exact (mem_ancestors_iff regular (cycles_eq_nil quiet) found looked).2 ⟨parent, mem, .inl rfl⟩

/-- `struct Shape[T] { show[P](x: T, y: P) -> P }`, where `P` is named as told, `struct Left[U](Shape[U])`, and
`struct Both`, which composes the structs that are told, each applied to the type beside it. -/
def shapesUnit (parameter : String) (parents : List (String × String)) : SourceUnit :=
  let type (name : String) : TypeExpr := ⟨.named name [], {}⟩
  let applied (name argument : String) : TypeExpr := ⟨.named name [type argument], {}⟩
  let method : FunctionDecl :=
    { name := "show", typeParameters := [{ name := parameter }]
      parameters := [{ name := "x", type := type "T" }, { name := "y", type := type parameter }]
      returns := [type parameter]
      body := some [.ret (some ⟨.ident "y", {}⟩) {}] }
  { id := ⟨0⟩
    declarations := [
      .struct { name := "Shape", typeParameters := [{ name := "T" }], methods := [method] },
      .struct { name := "Left", typeParameters := [{ name := "U" }], composes := [applied "Shape" "U"] },
      .struct { name := "Both", composes := parents.map fun (name, argument) => applied name argument }] }

/-- `Both` composes `Shape[int64]` twice, directly and through `Left[int64]`. -/
theorem serves_ancestors_iff_twice :
    let table := (Collected.ofUnits .standard [shapesUnit "V" [("Left", "int64"), ("Shape", "int64")]]).declared.table
    (ofTable table).issues = [] ∧ ∃ layout ∈ (ofTable table).layout? ⟨2⟩,
      layout.ancestors = [.struct ⟨1⟩ [.primitive .int64], .struct ⟨0⟩ [.primitive .int64]] ∧
      ∀ ancestor ∈ layout.ancestors, Serves table layout ancestor := by
  intro table
  have quiet : (ofTable table).issues = [] := by decide +kernel
  have all : ∀ own ∈ table.structs, Alike table own ∧ Apart table own := by decide +kernel
  have each : ∀ id own, table.struct? id = some own → Alike table own ∧ Apart table own :=
    fun _ own found => all own (mem_of_getElem? found)
  obtain ⟨layout, looked, ancestors⟩ : ∃ layout ∈ (ofTable table).layout? ⟨2⟩,
      layout.ancestors = [.struct ⟨1⟩ [.primitive .int64], .struct ⟨0⟩ [.primitive .int64]] := by decide +kernel
  obtain ⟨own, found⟩ : ∃ own, table.struct? ⟨2⟩ = some own := Option.isSome_iff_exists.1 (by decide +kernel)
  obtain ⟨_, serves⟩ := serves_ancestors_iff .standard _ quiet ⟨2⟩ own layout found looked
  exact ⟨quiet, layout, looked, ancestors, (serves fun above other _ => each above other).2 (each _ own found).1⟩

/-- The types of what is inherited twice are not compared if it comes from one struct: `Both` composes
`Shape[int64]` and `Shape[str]`, and `show` is not there for a `str`. -/
theorem not_serves_other_arguments :
    let table := (Collected.ofUnits .standard [shapesUnit "V" [("Left", "int64"), ("Shape", "str")]]).declared.table
    (ofTable table).issues = [] ∧ ∃ layout ∈ (ofTable table).layout? ⟨2⟩,
      .struct ⟨0⟩ [.primitive .str] ∈ layout.ancestors ∧
      ¬ Serves table layout (.struct ⟨0⟩ [.primitive .str]) := by
  decide +kernel

/-- Names may be captured even where nothing is inherited twice: `Left` takes the type parameter `U` of `show` for
its own, so `Both` has an `int64` in its place. -/
theorem not_serves_captured :
    let table := (Collected.ofUnits .standard [shapesUnit "U" [("Left", "int64")]]).declared.table
    (ofTable table).issues = [] ∧ (∀ own ∈ table.structs, Alike table own) ∧
    ∃ layout ∈ (ofTable table).layout? ⟨2⟩, .struct ⟨0⟩ [.primitive .int64] ∈ layout.ancestors ∧
      ¬ Serves table layout (.struct ⟨0⟩ [.primitive .int64]) := by
  decide +kernel

end Compositions

end SemanticChecker
