import SemanticChecker.Proofs.Composition.Cycles

/-! Where layouts come from. The layout that is found for a struct is composed of the layouts that are found
for its parents, and going from layouts to those they are composed of comes to an end. -/
namespace SemanticChecker

open List

/-- What members of a struct are to satisfy: the types of fields, the signatures of methods, and ancestors. -/
structure MemberRule where
  field : Ty → Prop
  method : Signature → Prop
  ancestor : Ty → Prop

structure MemberRule.Holds (rule : MemberRule) (fields : List ResolvedField) (methods : List ResolvedMethod)
    (ancestors : List Ty) : Prop where
  fields : ∀ field ∈ fields, rule.field field.type
  methods : ∀ method ∈ methods, rule.method method.signature
  ancestors : ∀ t ∈ ancestors, rule.ancestor t

def Layout.Obeys (rule : MemberRule) (layout : Layout) : Prop :=
  rule.Holds layout.fields layout.methods layout.ancestors

namespace Merge

def Obeys (rule : MemberRule) (m : Merge) : Prop :=
  rule.Holds m.fields m.methods m.ancestors

variable {rule : MemberRule} {m : Merge}

theorem Obeys.foldl {α : Type} {step : Merge → α → Merge} {items : List α}
    (keeps : ∀ item ∈ items, ∀ m : Merge, m.Obeys rule → (step m item).Obeys rule)
    (h : m.Obeys rule) : (items.foldl step m).Obeys rule := by
  induction items generalizing m with
  | nil => exact h
  | cons item rest ih =>
    obtain ⟨first, others⟩ := forall_mem_cons.1 keeps
    exact ih others (first m h)

theorem Obeys.addAncestor (h : m.Obeys rule) {t : Ty} (new : rule.ancestor t) : (m.addAncestor t).Obeys rule := by
  rw [Merge.addAncestor]
  split
  · exact h
  · exact ⟨h.fields, h.methods, forall_mem_append.2 ⟨h.ancestors, by simpa using new⟩⟩

theorem Obeys.addField (h : m.Obeys rule) {field : ResolvedField} (new : rule.field field.type) :
    Obeys rule { m with fields := m.fields ++ [field] } :=
  ⟨forall_mem_append.2 ⟨h.fields, by simpa using new⟩, h.methods, h.ancestors⟩

theorem Obeys.place {excused : ResolvedMethod → Prop} {method : ResolvedMethod} {later : Merge} (h : m.Obeys rule)
    (new : rule.method method.signature) (step : Places excused m method later) : later.Obeys rule := by
  refine ⟨step.fields ▸ h.fields, fun other mem => ?_, step.ancestors ▸ h.ancestors⟩
  rcases step.mem mem with mem | rfl
  · exact h.methods other mem
  · exact new

theorem Obeys.inheritField (h : m.Obeys rule) {owner : StructId} {span : Span} {field : ResolvedField}
    (new : rule.field field.type) : (m.inheritField owner span field).Obeys rule := by
  rw [Merge.inheritField]
  split
  · exact h.addField new
  · split
    · exact h
    · exact h

theorem Obeys.addOwnField (h : m.Obeys rule) {owner : StructId} {field : ResolvedField}
    (new : rule.field field.type) : (m.addOwnField owner field).Obeys rule := by
  rw [Merge.addOwnField]
  split
  · exact h
  · exact h.addField new

theorem Obeys.addOwnMethods {owner : StructId} : ∀ (methods : List ResolvedMethod) (declared : List String)
    {m : Merge}, m.Obeys rule → (∀ method ∈ methods, rule.method method.signature) →
      (m.addOwnMethods owner declared methods).Obeys rule
  | [], _, _, h, _ => h
  | method :: rest, declared, m, h, new => by
    obtain ⟨first, others⟩ := forall_mem_cons.1 new
    rw [Merge.addOwnMethods]
    refine Obeys.addOwnMethods rest _ ?_ others
    split
    · exact h
    · exact h.place first (overrideMethod_places owner m method)

/-- Whether what obeys one rule obeys another once type parameters are replaced. -/
structure Carries (σ : Instantiation) (inside outside : MemberRule) : Prop where
  field : ∀ t, inside.field t → outside.field (t.instantiate σ)
  method : ∀ s, inside.method s → outside.method (s.instantiate σ)
  ancestor : ∀ t, inside.ancestor t → outside.ancestor (t.instantiate σ)

theorem Obeys.inherit {table : DeclTable} {own : StructDef} {inside : MemberRule} {parent : Ty × Layout}
    (h : m.Obeys rule) (type : rule.ancestor parent.1) (inherited : parent.2.Obeys inside)
    (carries : Carries (parentInstantiation table parent.1) inside rule) :
    (Merge.inherit table own m parent).Obeys rule := by
  rw [Merge.inherit]
  refine .foldl (fun method mem m h => h.place (carries.method _ (inherited.methods method mem))
    (inheritMethod_places _ _ m _)) ?_
  refine .foldl (fun field mem m h => h.inheritField (carries.field _ (inherited.fields field mem))) ?_
  exact .foldl (fun t mem m h => h.addAncestor (carries.ancestor t (inherited.ancestors t mem))) (h.addAncestor type)

end Merge

theorem StructDef.compose_obeys {table : DeclTable} {own : StructDef} {rule : MemberRule}
    (mine : own.ownLayout.Obeys rule) {parents : List (Ty × Layout)}
    (each : ∀ parent ∈ parents, rule.ancestor parent.1 ∧ ∃ inside, parent.2.Obeys inside ∧
      Merge.Carries (Merge.parentInstantiation table parent.1) inside rule) (tainted : Bool) :
    (own.compose table parents tainted).1.layout.Obeys rule := by
  have empty : Merge.Obeys rule {} := ⟨fun _ mem => (by cases mem), fun _ mem => (by cases mem), fun _ mem => by cases mem⟩
  have merged : (own.mergeMembers table parents).Obeys rule := by
    rw [mergeMembers, Merge.reportAmbiguous_eq]
    refine Merge.Obeys.addOwnMethods own.ownMethods [] ?_ mine.methods
    refine .foldl (fun field mem m h => h.addOwnField (mine.fields field mem)) (.foldl (fun parent mem m h => ?_) empty)
    obtain ⟨type, inside, inherited, carries⟩ := each parent mem
    exact h.inherit type inherited carries
  rw [StructDef.compose]
  split
  · exact merged
  · exact merged

namespace Compositions

variable {table : DeclTable} {id : StructId}

variable {done : Resolution} {layout : Layout} {own : StructDef}

theorem layout?_of_mem (numbered : table.Numbered) {first : Nat} (isOne : first ∈ table.firsts)
    (mem : (id, done) ∈ (searched table first).memo) : (ofTable table).layout? id = some done.layout := by
  rw [layout?, (find?_ofTable numbered).2 ⟨first, isOne, mem⟩, Option.map_some]

theorem layout?_isSome (numbered : table.Numbered) (declared : (table.struct? id).isSome) :
    ∃ layout, (ofTable table).layout? id = some layout := by
  obtain ⟨first, isOne, here⟩ := table.mem_firsts declared
  obtain ⟨done, mem⟩ := (searched_sound numbered first).2 id here declared
  exact ⟨done.layout, layout?_of_mem numbered isOne mem⟩

/-- How layouts are composed. A struct whose parents are left out is on a cycle; otherwise those parents are
merged whose layouts are found, all of them if there are no cycles, and what merging them reports is reported. -/
inductive Composed (table : DeclTable) : StructId → Layout → Prop
  | alone {id : StructId} {own : StructDef} (found : table.struct? id = some own)
    (cyclic : (ofTable table).cycles ≠ []) : Composed table id own.ownLayout
  | merged {id : StructId} {own : StructDef} {parents : List (ComposedParent × Layout)} {tainted : Bool}
    (found : table.struct? id = some own) (named : ∀ pair ∈ parents, pair.1 ∈ own.shape.composes)
    (layouts : ∀ pair ∈ parents, (ofTable table).layout? pair.1.id = some pair.2)
    (before : ∀ pair ∈ parents, Composed table pair.1.id pair.2)
    (complete : (ofTable table).cycles = [] → ∀ parent ∈ own.shape.composes, (table.struct? parent.id).isSome →
      ∃ layout, (parent, layout) ∈ parents)
    (reported : (own.compose table (parents.map fun pair => (pair.1.type, pair.2)) tainted).2 ⊆ (ofTable table).issues) :
    Composed table id (own.compose table (parents.map fun pair => (pair.1.type, pair.2)) tainted).1.layout

theorem layout?_composed (numbered : table.Numbered) (found : (ofTable table).layout? id = some layout) :
    Composed table id layout := by
  obtain ⟨done, looked, rfl⟩ := Option.map_eq_some_iff.1 found
  obtain ⟨first, isOne, mem⟩ := (find?_ofTable numbered).1 looked
  have some : cyclesOf (searched table first).issues ≠ [] → (ofTable table).cycles ≠ [] := by
    rw [cycles_ofTable_eq]
    exact fun some none => some (flatMap_eq_nil_iff.1 none first isOne)
  have issues : (searched table first).issues ⊆ (ofTable table).issues := by
    rw [ofTable_eq]
    exact fun issue mem => mem_flatMap.2 ⟨first, isOne, mem⟩
  -- The induction is over what is finished, the first finished first.
  have each : ∀ memo listed, Traced table (searched table first).issues memo listed →
      memo ⊆ (searched table first).memo → listed ⊆ (ofTable table).issues →
      ∀ entry ∈ memo, Composed table entry.1 entry.2.layout := by
    intro memo listed traced
    induction traced with
    | nil => exact fun _ _ _ mem => by cases mem
    | cons _ _ composed ih =>
      intro inside reported
      obtain ⟨earlier, reported⟩ := append_subset.1 reported
      have before := ih (fun entry mem => inside (mem_cons_of_mem _ mem)) earlier
      refine forall_mem_cons.2 ⟨?_, before⟩
      obtain ⟨own, found, ⟨cyclic, members, same⟩ | ⟨_, parents, tainted, same, merges⟩⟩ := composed
      · rw [same]
        exact .alone found (some cyclic)
      · have layouts : ∀ pair ∈ parents, (ofTable table).layout? pair.1.id = Option.some pair.2 ∧
            Composed table pair.1.id pair.2 := by
          intro pair mem
          obtain ⟨_, done, finished, layout⟩ := merges.finished pair mem
          rw [← layout]
          exact ⟨layout?_of_mem numbered isOne (inside (mem_cons_of_mem _ finished)), before _ finished⟩
        rw [same] at reported ⊢
        exact .merged found (fun pair mem => (merges.finished pair mem).1) (fun pair mem => (layouts pair mem).1)
          (fun pair mem => (layouts pair mem).2)
          (fun none parent => merges.complete (not_not.1 fun cyclic => some cyclic none))
          reported
  exact each _ _ (searched_sound numbered first).1.traced (List.Subset.refl _)
    (fun issue mem => issues (mem_of_mem_filter mem)) _ mem

/-- What members are to satisfy in every struct they do satisfy, if those that a struct declares do, and if what is
inherited comes to satisfy it. -/
theorem Composed.obeys (rule : StructId → MemberRule)
    (mine : ∀ id own, table.struct? id = some own → own.ownLayout.Obeys (rule id))
    (parents : ∀ id own, table.struct? id = some own → ∀ parent ∈ own.shape.composes,
      (rule id).ancestor parent.type ∧
        Merge.Carries (Merge.parentInstantiation table parent.type) (rule parent.id) (rule id))
    (composed : Composed table id layout) : layout.Obeys (rule id) := by
  induction composed with
  | alone found _ => exact mine _ _ found
  | merged found named layouts before complete reported ih =>
    refine StructDef.compose_obeys (mine _ _ found) (fun parent mem => ?_) _
    obtain ⟨pair, isPair, rfl⟩ := mem_map.1 mem
    obtain ⟨type, carries⟩ := parents _ _ found pair.1 (named pair isPair)
    exact ⟨type, _, ih pair isPair, carries⟩

theorem layout?_eq_none (numbered : table.Numbered) (undeclared : table.struct? id = none) :
    (ofTable table).layout? id = none := by
  cases looked : (ofTable table).layout? id with
  | none => rfl
  | some layout =>
    cases layout?_composed numbered looked with
    | alone found _ => cases undeclared.symm.trans found
    | merged found _ _ _ _ _ => cases undeclared.symm.trans found

/-- No type parameters are mentioned in a layout but those of its struct and, in a method, those of the method. -/
structure Scoped (own : StructDef) (layout : Layout) : Prop where
  ancestors : ∀ ancestor ∈ layout.ancestors, ancestor.names ⊆ Ty.namesOf own.typeParameters
  methods : ∀ method ∈ layout.methods, ∀ name ∈ method.signature.type.names,
    name ∈ Ty.namesOf method.signature.typeParameters ∨ name ∈ Ty.namesOf own.typeParameters

theorem type_seen {other : StructDef} {parent : ComposedParent} {arguments : List Ty}
    (applies : parent.Applies table own arguments other) (layout : Layout) (method : ResolvedMethod) :
    (Merge.seen table (parent.type, layout) method).signature.type =
      method.signature.type.replace (other.instantiation arguments) := by
  rw [Merge.seen, Signature.type_instantiate, applies.parentInstantiation, Ty.instantiate_eq_replace]

theorem Composed.scoped (regular : table.Regular) (composed : Composed table id layout)
    (found : table.struct? id = some own) : Scoped own layout := by
  let rule (id : StructId) : MemberRule :=
    { field _ := True
      method s := ∀ own, table.struct? id = some own → ∀ name ∈ s.type.names,
        name ∈ Ty.namesOf s.typeParameters ∨ name ∈ Ty.namesOf own.typeParameters
      ancestor t := ∀ own, table.struct? id = some own → t.names ⊆ Ty.namesOf own.typeParameters }
  have holds : layout.Obeys (rule id) := by
    refine composed.obeys rule
      (fun id own found => ⟨fun _ _ => trivial, fun method mem other again => ?_, fun _ mem => ?_⟩)
      fun id own found parent mem => ?_
    · cases found.symm.trans again
      obtain ⟨decl, isOne, rfl⟩ := mem_map.1 mem
      exact regular.methods id own found decl isOne
    · cases mem
    · obtain ⟨arguments, other, applies⟩ := regular.composes id own found parent mem
      rw [applies.parentInstantiation]
      refine ⟨fun heir again => ?_, fun _ _ => trivial, fun s inside heir again name mentioned => ?_,
        fun t inside heir again name mentioned => ?_⟩ <;> cases found.symm.trans again
      · rw [applies.type]
        exact applies.names
      · rw [Signature.type_instantiate, Ty.instantiate_eq_replace] at mentioned
        rcases Ty.mem_names_ofArguments applies.count mentioned with ⟨mem, unknown⟩ | mem
        · exact .inl ((inside other applies.declared name mem).resolve_right unknown)
        · exact .inr (applies.names mem)
      · rw [Ty.instantiate_eq_replace] at mentioned
        rcases Ty.mem_names_ofArguments applies.count mentioned with ⟨mem, unknown⟩ | mem
        · exact absurd (inside other applies.declared mem) unknown
        · exact applies.names mem
  exact ⟨fun t mem => holds.ancestors t mem own found, fun method mem => holds.methods method mem own found⟩

theorem mem_ancestors_iff (regular : table.Regular) (none : (ofTable table).cycles = [])
    (found : table.struct? id = some own) (looked : (ofTable table).layout? id = some layout) {t : Ty} :
    t ∈ layout.ancestors ↔ ∃ parent ∈ own.shape.composes, t = parent.type ∨
      ∃ top, (ofTable table).layout? parent.id = some top ∧ ∃ ancestor ∈ top.ancestors,
        t = ancestor.instantiate (Merge.parentInstantiation table parent.type) := by
  cases layout?_composed regular.numbered looked with
  | alone _ cyclic => exact absurd none cyclic
  | merged again named layouts _ complete _ =>
    cases found.symm.trans again
    rw [StructDef.ancestors_compose, StructDef.mem_ancestors_mergeMembers]
    constructor
    · rintro ⟨_, isOne, either⟩
      obtain ⟨pair, isPair, rfl⟩ := mem_map.1 isOne
      exact ⟨pair.1, named pair isPair, either.imp_right fun ancestor => ⟨pair.2, layouts pair isPair, ancestor⟩⟩
    · rintro ⟨parent, mem, either⟩
      obtain ⟨_, other, applies⟩ := regular.composes id own found parent mem
      obtain ⟨top, isPair⟩ := complete none parent mem (by rw [applies.declared]; rfl)
      refine ⟨_, mem_map_of_mem isPair, either.imp_right ?_⟩
      rintro ⟨again, looked, ancestor⟩
      cases looked.symm.trans (layouts _ isPair)
      exact ancestor

end Compositions

end SemanticChecker
