import SemanticChecker.Proofs.Composition.Flattening
import SemanticChecker.Proofs.Composition.Upcast
import SemanticChecker.Proofs.Soundness.Members

/-! The fields of a layout. Unless fields are reported as duplicates, merging keeps every field that comes in: a field of
a name that is there already has come in along another path before. So a struct has the fields of all its ancestors,
each as it is seen from the struct and none twice. -/
namespace SemanticChecker

open List

namespace Merge

def Distinct (m : Merge) : Prop :=
  ∀ issue ∈ m.issues, issue.code ≠ .duplicateField

theorem Adds.distinct {m later : Merge} (h : m.Adds later) (distinct : later.Distinct) : m.Distinct := by
  obtain ⟨more, same, _⟩ := h
  exact fun issue mem => distinct issue (same ▸ mem_append_left more mem)

theorem not_distinct_report {m : Merge} {owner : StructId} {field : String} {span : Span} :
    ¬ (m.report (.duplicateField owner field span)).Distinct :=
  fun distinct => distinct _ (mem_append_right _ mem_cons_self) rfl

theorem fields_addAncestor (m : Merge) (ancestor : Ty) : (m.addAncestor ancestor).fields = m.fields := by
  rw [addAncestor]
  split <;> rfl

/-- A parent's field as the heir sees it. -/
def seenField (table : DeclTable) (type : Ty) (field : ResolvedField) : ResolvedField :=
  { field with type := field.type.instantiate (parentInstantiation table type) }

theorem names_seenField (table : DeclTable) (type : Ty) (fields : List ResolvedField) :
    (fields.map (seenField table type)).map (·.name) = fields.map (·.name) := by
  rw [map_map]
  rfl

def inheritedFields (table : DeclTable) (parents : List (Ty × Layout)) : List ResolvedField :=
  parents.flatMap fun parent => parent.2.fields.map (seenField table parent.1)

/-- The merge has one field for every name among the fields that have come in. -/
structure Names (items : List ResolvedField) (m : Merge) : Prop where
  nodup : (m.fields.map (·.name)).Nodup
  mem : ∀ name, name ∈ m.fields.map (·.name) ↔ name ∈ items.map (·.name)

def Gathers (items : List ResolvedField) (m : Merge) : Prop :=
  ∀ field, field ∈ m.fields ↔ field ∈ items

def FieldsAgree (pool : List ResolvedField) : Prop :=
  ∀ a ∈ pool, ∀ b ∈ pool, a.name = b.name → a.origin = b.origin → a.type = b.type → a = b

section Steps

variable {items : List ResolvedField} {m : Merge} {owner : StructId} {span : Span} {field : ResolvedField}

theorem Names.congr {later : Merge} (same : later.fields = m.fields) (h : m.Names items) : later.Names items :=
  ⟨same ▸ h.nodup, same ▸ h.mem⟩

theorem Names.add {later : Merge} (h : m.Names items) (new : ∀ other ∈ m.fields, other.name ≠ field.name)
    (fields : later.fields = m.fields ++ [field]) : later.Names (items ++ [field]) := by
  refine ⟨?_, fun name => ?_⟩ <;> rw [fields, map_append]
  · rw [nodup_append]
    refine ⟨h.nodup, by simp, fun name mem other last same => ?_⟩
    obtain ⟨existing, isOne, rfl⟩ := mem_map.1 mem
    rw [map_singleton, mem_singleton] at last
    exact new existing isOne (same.trans last)
  · rw [map_append, mem_append, mem_append, h.mem]

theorem Names.drop {later : Merge} {existing : ResolvedField} (h : m.Names items) (mem : existing ∈ m.fields)
    (same : existing.name = field.name) (fields : later.fields = m.fields) : later.Names (items ++ [field]) := by
  refine ⟨fields ▸ h.nodup, fun name => ?_⟩
  rw [fields, map_append, mem_append, ← h.mem]
  refine ⟨.inl, fun either => either.elim id fun here => ?_⟩
  rw [map_singleton, mem_singleton] at here
  exact here.trans same.symm ▸ mem_map_of_mem mem

theorem inheritField_cases (owner : StructId) (span : Span) (m : Merge) (field : ResolvedField) :
    (∀ other ∈ m.fields, other.name ≠ field.name) ∧
        (m.inheritField owner span field).fields = m.fields ++ [field] ∨
      (m.inheritField owner span field).fields = m.fields ∧ ∃ existing ∈ m.fields, existing.name = field.name ∧
        ((m.inheritField owner span field).Distinct → existing.origin = field.origin ∧ existing.type = field.type) := by
  rw [inheritField]
  split
  · rename_i missing
    exact .inl ⟨fun other mem => by simpa using find?_eq_none.1 missing other mem, rfl⟩
  · rename_i existing found
    have mem := mem_of_find?_eq_some found
    have name : existing.name = field.name := by simpa using find?_some found
    split
    · rename_i same
      exact .inr ⟨rfl, existing, mem, name, fun _ => same⟩
    · exact .inr ⟨rfl, existing, mem, name, fun distinct => absurd distinct not_distinct_report⟩

theorem fields_prefix_inheritField (owner : StructId) (span : Span) (m : Merge) (field : ResolvedField) :
    m.fields <+: (m.inheritField owner span field).fields := by
  rcases inheritField_cases owner span m field with ⟨_, fields⟩ | ⟨fields, _⟩ <;> rw [fields]
  exact prefix_append _ _

theorem Names.inheritField (h : m.Names items) : (m.inheritField owner span field).Names (items ++ [field]) := by
  rcases inheritField_cases owner span m field with ⟨fresh, fields⟩ | ⟨fields, existing, mem, name, _⟩
  · exact h.add fresh fields
  · exact h.drop mem name fields

theorem Names.addOwnField (h : m.Names items) : (m.addOwnField owner field).Names (items ++ [field]) := by
  rw [Merge.addOwnField]
  split
  · rename_i taken
    obtain ⟨existing, mem, same⟩ := any_eq_true.1 taken
    exact h.drop mem (beq_iff_eq.1 same) rfl
  · rename_i free
    exact h.add (by simpa using free) rfl

theorem Gathers.inheritField (h : m.Gathers items) (distinct : (m.inheritField owner span field).Distinct)
    (agree : FieldsAgree (items ++ [field])) : (m.inheritField owner span field).Gathers (items ++ [field]) := by
  intro other
  rcases inheritField_cases owner span m field with ⟨_, fields⟩ | ⟨fields, existing, mem, name, compared⟩
  · rw [fields, mem_append, mem_append, h]
  · obtain ⟨origin, type⟩ := compared distinct
    have isItem := (h existing).1 mem
    cases agree existing (mem_append_left _ isItem) field (by simp) name origin type
    rw [fields, h, mem_append, mem_singleton]
    exact ⟨.inl, fun either => either.elim id fun same => same ▸ isItem⟩

theorem fields_prefix_inheritFields (owner : StructId) (span : Span) (incoming : List ResolvedField) (m : Merge) :
    m.fields <+: (incoming.foldl (inheritField owner span) m).fields := by
  induction incoming generalizing m with
  | nil => exact prefix_rfl
  | cons field rest ih => exact (fields_prefix_inheritField owner span m field).trans (ih _)

theorem fields_inheritFields_of_nodup {incoming : List ResolvedField}
    (nodup : ((m.fields ++ incoming).map (·.name)).Nodup) :
    (incoming.foldl (inheritField owner span) m).fields = m.fields ++ incoming := by
  induction incoming generalizing m with
  | nil => exact (append_nil _).symm
  | cons field rest ih =>
    have added : (m.inheritField owner span field).fields = m.fields ++ [field] := by
      rcases inheritField_cases owner span m field with ⟨_, fields⟩ | ⟨_, existing, mem, name, _⟩
      · exact fields
      · rw [map_append, nodup_append] at nodup
        exact absurd name (nodup.2.2 _ (mem_map_of_mem mem) _ (mem_map_of_mem mem_cons_self))
    rw [foldl_cons, ih (by rwa [added, List.append_assoc]), added, List.append_assoc]
    rfl

theorem addOwnFields_distinct {fields : List ResolvedField}
    (distinct : (fields.foldl (addOwnField owner) m).Distinct) :
    (fields.foldl (addOwnField owner) m).fields = m.fields ++ fields ∧ (fields.map (·.name)).Nodup ∧
      ∀ field ∈ fields, ∀ other ∈ m.fields, other.name ≠ field.name := by
  induction fields generalizing m with
  | nil => exact ⟨(append_nil _).symm, nodup_nil, fun _ mem => by cases mem⟩
  | cons field rest ih =>
    have before := (Adds.foldl (addOwnField_adds owner) rest (m.addOwnField owner field)).distinct distinct
    have free : ∀ other ∈ m.fields, other.name ≠ field.name := by
      intro other mem same
      have taken : (m.fields.any fun existing => existing.name == field.name) = true := by
        simpa using ⟨other, mem, same⟩
      rw [addOwnField, if_pos taken] at before
      exact not_distinct_report before
    have added : (m.addOwnField owner field).fields = m.fields ++ [field] := by
      rw [addOwnField, if_neg]
      simpa using free
    obtain ⟨all, nodup, others⟩ := ih distinct
    rw [added] at all others
    refine ⟨?_, nodup_cons.2 ⟨fun mem => ?_, nodup⟩, forall_mem_cons.2 ⟨free, fun later mem other isOne => ?_⟩⟩
    · rw [foldl_cons, all, List.append_assoc]
      rfl
    · obtain ⟨later, isLater, same⟩ := mem_map.1 mem
      exact others later isLater field (mem_append_right _ mem_cons_self) same.symm
    · exact others later mem other (mem_append_left _ isOne)

end Steps

section Parents

variable {table : DeclTable} {own : StructDef}

theorem fields_inherit (table : DeclTable) (own : StructDef) (m : Merge) (parent : Ty × Layout) :
    ∃ base : Merge, m.Adds base ∧ base.fields = m.fields ∧
      (inherit table own m parent).fields = ((parent.2.fields.map (seenField table parent.1)).foldl
        (inheritField own.id (parentSpan own parent.1)) base).fields ∧
      ((parent.2.fields.map (seenField table parent.1)).foldl
        (inheritField own.id (parentSpan own parent.1)) base).Adds (inherit table own m parent) := by
  refine ⟨parent.2.ancestors.foldl
    (fun m ancestor => m.addAncestor (ancestor.instantiate (parentInstantiation table parent.1)))
    (m.addAncestor parent.1), (addAncestor_adds m _).trans (.foldl (fun m _ => addAncestor_adds m _) _ _), ?_, ?_, ?_⟩
  · rw [foldl_eq Merge.fields (fun m _ => fields_addAncestor m _), fields_addAncestor]
  · rw [inherit_eq, foldl_eq Merge.fields fun m method => (inheritMethod_places _ _ m method).fields,
      foldl_map]
    rfl
  · rw [inherit_eq, foldl_map]
    exact .foldl (fun m _ => (inheritMethod_places _ _ m _).adds) _ _

theorem fields_prefix_inheritAll (parents : List (Ty × Layout)) (m : Merge) :
    m.fields <+: (parents.foldl (inherit table own) m).fields := by
  induction parents generalizing m with
  | nil => exact prefix_rfl
  | cons parent rest ih =>
    obtain ⟨base, _, same, fields, _⟩ := fields_inherit table own m parent
    refine .trans ?_ (ih _)
    rw [fields, ← same]
    exact fields_prefix_inheritFields _ _ _ base

theorem Gathers.inheritAll {parents : List (Ty × Layout)} (agree : FieldsAgree (inheritedFields table parents))
    (distinct : (parents.foldl (Merge.inherit table own) {}).Distinct) :
    (parents.foldl (Merge.inherit table own) {}).Gathers (inheritedFields table parents) := by
  let P (items : List ResolvedField) (m : Merge) := FieldsAgree items → m.Distinct → m.Gathers items
  have step : ∀ span items m field, P items m → P (items ++ [field]) (Merge.inheritField own.id span m field) := by
    intro span items m field h agree distinct
    have before : FieldsAgree items := fun a isA b isB =>
      agree a (mem_append_left _ isA) b (mem_append_left _ isB)
    exact (h before ((inheritField_adds own.id span m field).distinct distinct)).inheritField distinct agree
  have empty : P [] {} := fun _ _ _ => Iff.rfl
  refine foldl_flatMap (P := P) (fun items m parent h agree distinct => ?_) parents empty agree distinct
  obtain ⟨base, before, same, fields, adds⟩ := fields_inherit table own m parent
  have start : P items base := fun agree distinct field => same ▸ h agree (before.distinct distinct) field
  exact fun field => fields ▸ foldl_append (step _) _ start agree (adds.distinct distinct) field

end Parents

end Merge

namespace StructDef

variable {table : DeclTable} {own : StructDef} {parents : List (Ty × Layout)}

theorem fields_mergeMembers (distinct : (own.mergeMembers table parents).Distinct) :
    (own.mergeMembers table parents).fields = (parents.foldl (Merge.inherit table own) {}).fields ++ own.ownFields ∧
      (own.ownFields.map (·.name)).Nodup ∧
      (∀ field ∈ own.ownFields, ∀ other ∈ (parents.foldl (Merge.inherit table own) {}).fields,
        other.name ≠ field.name) ∧
      (parents.foldl (Merge.inherit table own) {}).Distinct := by
  rw [mergeMembers, Merge.reportAmbiguous_eq] at distinct ⊢
  have methods := (forall_mem_append.1 distinct).1
  have fields := (Merge.addOwnMethods_adds _ _ _ _).distinct methods
  obtain ⟨added, nodup, others⟩ := Merge.addOwnFields_distinct fields
  refine ⟨?_, nodup, others, (Merge.Adds.foldl (Merge.addOwnField_adds _) _ _).distinct fields⟩
  rw [← added]
  exact (Merge.addOwnMethods_eq _ _ _ _).1

theorem mergeMembers_gathers (distinct : (own.mergeMembers table parents).Distinct)
    (agree : Merge.FieldsAgree (Merge.inheritedFields table parents)) :
    (own.mergeMembers table parents).Gathers (Merge.inheritedFields table parents ++ own.ownFields) := by
  obtain ⟨fields, _, _, inherits⟩ := fields_mergeMembers distinct
  have inherited := Merge.Gathers.inheritAll agree inherits
  intro field
  rw [fields, mem_append, mem_append, inherited]

/-- Whatever is reported, a struct has one field for every name of a field that it inherits or declares. -/
theorem mergeMembers_names (table : DeclTable) (own : StructDef) (parents : List (Ty × Layout)) :
    (own.mergeMembers table parents).Names (Merge.inheritedFields table parents ++ own.ownFields) := by
  have empty : Merge.Names [] {} := ⟨nodup_nil, fun _ => Iff.rfl⟩
  have inherits : (parents.foldl (Merge.inherit table own) {}).Names (Merge.inheritedFields table parents) := by
    refine Merge.foldl_flatMap (P := Merge.Names) (fun items m parent h => ?_) parents empty
    obtain ⟨base, _, same, fields, _⟩ := Merge.fields_inherit table own m parent
    exact .congr fields (Merge.foldl_append (P := Merge.Names) (fun _ _ _ h => h.inheritField) _ (.congr same h))
  rw [mergeMembers, Merge.reportAmbiguous_eq]
  exact .congr (Merge.addOwnMethods_eq own.id own.ownMethods [] _).1
    (Merge.foldl_append (P := Merge.Names) (fun _ _ _ h => h.addOwnField) own.ownFields inherits)

theorem prefix_mergeMembers {first : Ty × Layout} {rest : List (Ty × Layout)}
    (distinct : (own.mergeMembers table (first :: rest)).Distinct) (nodup : (first.2.fields.map (·.name)).Nodup) :
    first.2.fields.map (Merge.seenField table first.1) <+: (own.mergeMembers table (first :: rest)).fields := by
  obtain ⟨base, _, same, fields, _⟩ := Merge.fields_inherit table own {} first
  have all : (Merge.inherit table own {} first).fields = first.2.fields.map (Merge.seenField table first.1) := by
    rw [fields, Merge.fields_inheritFields_of_nodup, same]
    · rfl
    · rw [same]
      change ((first.2.fields.map (Merge.seenField table first.1)).map (·.name)).Nodup
      rw [Merge.names_seenField]
      exact nodup
  rw [(fields_mergeMembers distinct).1, ← all]
  exact (Merge.fields_prefix_inheritAll rest _).trans (prefix_append _ _)

theorem fields_compose (tainted : Bool) :
    (own.compose table parents tainted).1.layout.fields = (own.mergeMembers table parents).fields := by
  rw [compose]
  split <;> rfl

end StructDef

/-- The field is one that its origin declares, but for what stands for type parameters. -/
def ResolvedField.DeclaredIn (table : DeclTable) (field : ResolvedField) : Prop :=
  ∃ own, table.struct? field.origin = some own ∧ ∃ base ∈ own.ownFields, field = { base with type := field.type }

theorem ResolvedField.DeclaredIn.seen {table : DeclTable} {field : ResolvedField} (h : field.DeclaredIn table)
    (type : Ty) : (Merge.seenField table type field).DeclaredIn table := by
  obtain ⟨own, found, base, mem, same⟩ := h
  refine ⟨own, found, base, mem, ?_⟩
  rw [Merge.seenField, same]

theorem ResolvedField.DeclaredIn.eq {table : DeclTable} {a b : ResolvedField}
    (nodup : ∀ id own, table.struct? id = some own → (own.ownFields.map (·.name)).Nodup) (left : a.DeclaredIn table)
    (right : b.DeclaredIn table) (name : a.name = b.name) (origin : a.origin = b.origin) (type : a.type = b.type) :
    a = b := by
  obtain ⟨own, found, first, isFirst, here⟩ := left
  obtain ⟨other, again, second, isSecond, there⟩ := right
  rw [← origin] at again
  cases found.symm.trans again
  have same : first.name = second.name := by
    rw [here, there] at name
    exact name
  cases inj_on_of_nodup_map (nodup _ _ found) isFirst isSecond same
  rw [here, there, type]

namespace Compositions

variable {table : DeclTable}

def Sane (table : DeclTable) : Prop :=
  ∀ issue ∈ (ofTable table).issues, issue.code ≠ .compositionCycle ∧ issue.code ≠ .duplicateField

theorem Sane.cycles (sane : Sane table) : (ofTable table).cycles = [] := by
  refine eq_nil_iff_forall_not_mem.2 fun members mem => ?_
  exact (sane _ (mem_cyclesOf.1 mem)).1 rfl

theorem flatParents_eq_parentsOf (acyclic : table.Acyclic) (numbered : table.Numbered) (own : StructDef) :
    DeclTable.flatParents acyclic own.shape.composes = parentsOf table own := by
  refine filterMap_congr fun parent _ => ?_
  split
  · rename_i declared
    rw [layout?, find?_eq_flatten acyclic numbered declared]
    rfl
  · rename_i missing
    rw [layout?_eq_none numbered (Option.not_isSome_iff_eq_none.1 missing)]
    rfl

variable {own : StructDef} {field : ResolvedField} {id : StructId}

theorem mem_inheritedFields :
    field ∈ Merge.inheritedFields table (parentsOf table own) ↔ ∃ parent ∈ own.shape.composes,
      ∃ top, (ofTable table).layout? parent.id = some top ∧ ∃ base ∈ top.fields,
        field = Merge.seenField table parent.type base :=
  mem_flatMap_parentsOf

theorem flatten_eq_compose (acyclic : table.Acyclic) (numbered : table.Numbered) (found : table.struct? id = some own) :
    table.flatten acyclic id = own.compose table (parentsOf table own)
      (own.shape.composes.any fun parent => (table.struct? parent.id).isNone) := by
  rw [table.flatten_declared acyclic found, flatParents_eq_parentsOf acyclic numbered]

section Layouts

variable (regular : table.Regular) (sane : Sane table)
include regular sane

variable {id : StructId} {own : StructDef} {layout : Layout} {field : ResolvedField}

theorem fields_eq_mergeMembers (found : table.struct? id = some own) (looked : (ofTable table).layout? id = some layout) :
    layout.fields = (own.mergeMembers table (parentsOf table own)).fields ∧
      (own.mergeMembers table (parentsOf table own)).Distinct := by
  have acyclic := acyclic_of_cycles_eq_nil regular.numbered sane.cycles
  rw [layout?, find?_eq_flatten acyclic regular.numbered (by rw [found]; rfl), Option.map_some] at looked
  have flat := flatten_eq_compose acyclic regular.numbered found
  refine ⟨?_, fun issue mem => ?_⟩
  · rw [← Option.some.inj looked, flat, StructDef.fields_compose]
  · have listed : own ∈ table.structs := mem_of_getElem? found
    refine (sane issue ((issues_perm acyclic regular.numbered).mem_iff.2 (mem_flatMap.2 ⟨own, listed, ?_⟩))).2
    rw [regular.numbered id own found, flat]
    exact StructDef.issues_mergeMembers_subset _ _ _ _ mem

theorem ownFields_nodup (id : StructId) (own : StructDef) (found : table.struct? id = some own) :
    (own.ownFields.map (·.name)).Nodup := by
  obtain ⟨layout, looked⟩ := layout?_isSome regular.numbered (by rw [found]; rfl)
  exact (StructDef.fields_mergeMembers (fields_eq_mergeMembers regular sane found looked).2).2.1

/-- A struct has what it declares and what its parents have, as it sees that, and one field of each name. -/
theorem fields_gathered (found : table.struct? id = some own) (looked : (ofTable table).layout? id = some layout) :
    (layout.fields.map (·.name)).Nodup ∧ (∀ field ∈ layout.fields, field.DeclaredIn table) ∧
      ∀ field, field ∈ layout.fields ↔ field ∈ Merge.inheritedFields table (parentsOf table own) ++ own.ownFields := by
  induction acc_of_cycles_eq_nil regular.numbered sane.cycles id generalizing own layout with
  | intro id _ ih =>
    obtain ⟨fields, distinct⟩ := fields_eq_mergeMembers regular sane found looked
    have inherited : ∀ field ∈ Merge.inheritedFields table (parentsOf table own), field.DeclaredIn table := by
      intro field mem
      obtain ⟨parent, isParent, top, here, base, isBase, rfl⟩ := mem_inheritedFields.1 mem
      obtain ⟨_, other, applies⟩ := regular.composes id own found parent isParent
      exact ((ih parent.id (applies.composes found isParent) applies.declared here).2.1 base isBase).seen parent.type
    have agree : Merge.FieldsAgree (Merge.inheritedFields table (parentsOf table own)) :=
      fun a isA b isB => ResolvedField.DeclaredIn.eq (ownFields_nodup regular sane) (inherited a isA) (inherited b isB)
    have gathers := StructDef.mergeMembers_gathers distinct agree
    rw [fields]
    refine ⟨(own.mergeMembers_names table _).nodup, fun field mem => ?_, gathers⟩
    rcases mem_append.1 ((gathers field).1 mem) with mem | mem
    · exact inherited field mem
    · obtain ⟨decl, _, rfl⟩ := mem_map.1 mem
      refine ⟨own, ?_, _, mem, rfl⟩
      rw [regular.numbered id own found]
      exact found

theorem mem_fields_iff (found : table.struct? id = some own) (looked : (ofTable table).layout? id = some layout) :
    field ∈ layout.fields ↔ field ∈ own.ownFields ∨ ∃ parent ∈ own.shape.composes,
      ∃ top, (ofTable table).layout? parent.id = some top ∧ ∃ base ∈ top.fields,
        field = Merge.seenField table parent.type base := by
  rw [(fields_gathered regular sane found looked).2.2, mem_append, mem_inheritedFields, or_comm]

theorem origin_ancestor (found : table.struct? id = some own) (looked : (ofTable table).layout? id = some layout)
    (mem : field ∈ layout.fields) :
    field.origin = id ∨ ∃ arguments, .struct field.origin arguments ∈ layout.ancestors := by
  induction acc_of_cycles_eq_nil regular.numbered sane.cycles id generalizing own layout field with
  | intro id _ ih =>
    have above := fun t => mem_ancestors_iff (t := t) regular sane.cycles found looked
    rcases (mem_fields_iff regular sane found looked).1 mem with mine | ⟨parent, isParent, top, here, base, isBase, rfl⟩
    · obtain ⟨decl, _, rfl⟩ := mem_map.1 mine
      exact .inl (regular.numbered id own found)
    · obtain ⟨arguments, other, applies⟩ := regular.composes id own found parent isParent
      right
      rcases ih parent.id (applies.composes found isParent) applies.declared here isBase with origin | ⟨inner, further⟩
      · refine ⟨arguments, (above _).2 ⟨parent, isParent, .inl ?_⟩⟩
        rw [applies.type]
        exact congrArg (Ty.struct · arguments) origin
      · refine ⟨inner.map (Ty.replace (Merge.parentInstantiation table parent.type)),
          (above _).2 ⟨parent, isParent, .inr ⟨top, here, _, further, ?_⟩⟩⟩
        rw [Ty.instantiate_eq_replace, Ty.replace, Ty.replaceAll_eq_map]
        rfl

end Layouts

theorem mem_fields_of_ancestor {bounds : BoundTable} (formed : table.Formed True bounds) (sane : Sane table)
    (found : table.struct? id = some own) {layout : Layout} (looked : (ofTable table).layout? id = some layout)
    {ancestor : Ty} (mem : ancestor ∈ layout.ancestors) :
    ∃ above arguments other top, ancestor = .struct above arguments ∧ table.struct? above = some other ∧
      (Ty.namesOf other.typeParameters).length = arguments.length ∧ (ofTable table).layout? above = some top ∧
      ∀ field ∈ top.fields,
        { field with type := field.type.instantiate (other.instantiation arguments) } ∈ layout.fields := by
  have regular := formed.regular
  induction acc_of_cycles_eq_nil regular.numbered sane.cycles id generalizing own layout ancestor with
  | intro id _ ih =>
    obtain ⟨parent, isParent, either⟩ := (mem_ancestors_iff regular sane.cycles found looked).1 mem
    obtain ⟨arguments, other, applies⟩ := regular.composes id own found parent isParent
    have seen : ∀ {top : Layout}, (ofTable table).layout? parent.id = some top → ∀ field ∈ top.fields,
        { field with type := field.type.instantiate (other.instantiation arguments) } ∈ layout.fields := by
      intro top here field isField
      rw [← applies.parentInstantiation]
      exact (mem_fields_iff regular sane found looked).2 (.inr ⟨parent, isParent, top, here, field, isField, rfl⟩)
    rcases either with rfl | ⟨top, here, inner, isInner, rfl⟩
    · obtain ⟨top, here⟩ := layout?_isSome regular.numbered (by rw [applies.declared]; rfl)
      exact ⟨parent.id, arguments, other, top, applies.type, applies.declared, applies.count, here, seen here⟩
    · obtain ⟨above, others, far, last, rfl, declared, count, isLast, fields⟩ :=
        ih parent.id (applies.composes found isParent) applies.declared here isInner
      refine ⟨above, others.map (Ty.replace (other.instantiation arguments)), far, last, ?_, declared, ?_, isLast,
        fun field isField => ?_⟩
      · rw [applies.parentInstantiation, Ty.instantiate_eq_replace, Ty.replace, Ty.replaceAll_eq_map]
      · rw [count, length_map]
      · have known : ∀ name ∈ field.type.names, name ∈ Ty.namesOf far.typeParameters := by
          intro name mentioned
          obtain ⟨_, again, mem⟩ := ((formed.layout_obeys isLast).fields field isField).names name mentioned
          cases declared.symm.trans again
          exact mem
        have twice : (field.type.instantiate (far.instantiation others)).instantiate (other.instantiation arguments) =
            field.type.instantiate (far.instantiation (others.map (Ty.replace (other.instantiation arguments)))) := by
          rw [Ty.instantiate_eq_replace, Ty.instantiate_eq_replace, Ty.instantiate_eq_replace]
          exact Ty.replace_ofArguments count fun name mentioned => .inl (known name mentioned)
        rw [← twice]
        exact seen here _ (fields field isField)

theorem filter_name_eq {fields : List ResolvedField} (nodup : (fields.map (·.name)).Nodup) (mem : field ∈ fields) :
    (fields.filter fun other => other.name == field.name) = [field] := by
  induction fields with
  | nil => cases mem
  | cons first rest ih =>
    obtain ⟨fresh, nodup⟩ := nodup_cons.1 nodup
    rcases mem_cons.1 mem with rfl | mem
    · rw [filter_cons, if_pos (beq_self_eq_true _), filter_eq_nil_iff.2]
      intro other isOther same
      exact fresh (mem_map.2 ⟨other, isOther, beq_iff_eq.1 same⟩)
    · have differ : ¬ (first.name == field.name) = true :=
        fun same => fresh (mem_map.2 ⟨field, mem, (beq_iff_eq.1 same).symm⟩)
      rw [filter_cons, if_neg differ, ih nodup mem]

/-- Unless a cycle is reported or a member that is there more than once, a struct has one field of each name. The fields
of its first parent come first, as the struct sees them, and what it declares comes last, in order. Every field comes
from the struct or an ancestor; and of every ancestor the struct has each field just once, as it is declared, with the
arguments of the ancestor for its type parameters. -/
theorem fields_laid_out (bounds : BoundTable) (units : List SourceUnit) :
    let table := (Collected.ofUnits bounds units).declared.table
    (∀ issue ∈ (ofTable table).issues, issue.code ≠ .compositionCycle ∧ issue.code ≠ .duplicateField) →
    ∀ id own, table.struct? id = some own → ∃ layout, (ofTable table).layout? id = some layout ∧
      (layout.fields.map (·.name)).Nodup ∧
      (∀ parent rest, own.shape.composes = parent :: rest → ∃ top, (ofTable table).layout? parent.id = some top ∧
        top.fields.map (Merge.seenField table parent.type) <+: layout.fields) ∧
      own.ownFields <:+ layout.fields ∧
      (∀ field ∈ layout.fields,
        field.origin = id ∨ ∃ arguments, .struct field.origin arguments ∈ layout.ancestors) ∧
      ∀ ancestor ∈ layout.ancestors, ∃ above arguments other top, ancestor = .struct above arguments ∧
        table.struct? above = some other ∧ (ofTable table).layout? above = some top ∧
        ∀ field ∈ top.fields, (layout.fields.filter fun mine => mine.name == field.name) =
          [{ field with type := field.type.instantiate (other.instantiation arguments) }] := by
  intro table sane id own found
  have formed : table.Formed True bounds := Collected.ofUnits_formed (.inl trivial)
  have regular := formed.regular
  obtain ⟨layout, looked⟩ := layout?_isSome regular.numbered (by rw [found]; rfl)
  obtain ⟨nodup, _⟩ := fields_gathered regular sane found looked
  obtain ⟨fields, distinct⟩ := fields_eq_mergeMembers regular sane found looked
  refine ⟨layout, looked, nodup, ?first, ?last, fun field => origin_ancestor regular sane found looked, ?ancestors⟩
  case first =>
    intro parent rest composes
    obtain ⟨_, other, applies⟩ := regular.composes id own found parent (composes ▸ mem_cons_self)
    have declared : (table.struct? parent.id).isSome := by rw [applies.declared]; rfl
    obtain ⟨top, here⟩ := layout?_isSome regular.numbered declared
    refine ⟨top, here, ?_⟩
    have parents : parentsOf table own = (parent.type, top) :: rest.filterMap fun parent =>
        ((ofTable table).layout? parent.id).map fun layout => (parent.type, layout) := by
      rw [parentsOf, composes, filterMap_cons, here]
      rfl
    rw [parents] at fields distinct
    rw [fields]
    exact StructDef.prefix_mergeMembers distinct (fields_gathered regular sane applies.declared here).1
  case last =>
    rw [fields, (StructDef.fields_mergeMembers distinct).1]
    exact suffix_append _ _
  case ancestors =>
    intro ancestor mem
    obtain ⟨above, arguments, other, top, type, declared, _, here, each⟩ :=
      mem_fields_of_ancestor formed sane found looked mem
    exact ⟨above, arguments, other, top, type, declared, here,
      fun field isField => filter_name_eq nodup (each field isField)⟩

/-- A generic struct that is composed along two paths, under another name for its type parameter on each. -/
def shelf : List SourceUnit :=
  let named (name : String) (arguments : List TypeExpr) : TypeExpr := ⟨.named name arguments, {}⟩
  [{ id := ⟨0⟩
     declarations := [
      .struct { name := "Store", typeParameters := [{ name := "T" }], fields := [{ name := "item", type := named "T" [] }] },
      .struct {
        name := "Open", typeParameters := [{ name := "A" }], composes := [named "Store" [named "A" []]]
        fields := [{ name := "first", type := named "A" [] }] },
      .struct { name := "Closed", typeParameters := [{ name := "B" }], composes := [named "Store" [named "B" []]] },
      .struct {
        name := "Shelf", typeParameters := [{ name := "T" }]
        composes := [named "Open" [named "List" [named "T" []]], named "Closed" [named "List" [named "T" []]]]
        fields := [{ name := "label", type := named "T" [] }] }] }]

theorem fields_laid_out_shelf :
    let table := (Collected.ofUnits .standard shelf).declared.table
    (∀ issue ∈ (ofTable table).issues, issue.code ≠ .compositionCycle ∧ issue.code ≠ .duplicateField) ∧
    ∃ layout, (ofTable table).layout? ⟨3⟩ = some layout ∧ (layout.fields.map (·.name)).Nodup ∧
      .struct ⟨0⟩ [.list (.parameter "T")] ∈ layout.ancestors ∧
      ∀ ancestor ∈ layout.ancestors, ∃ above arguments other top, ancestor = .struct above arguments ∧
        table.struct? above = some other ∧ (ofTable table).layout? above = some top ∧
        ∀ field ∈ top.fields, (layout.fields.filter fun mine => mine.name == field.name) =
          [{ field with type := field.type.instantiate (other.instantiation arguments) }] := by
  intro table
  have sane : ∀ issue ∈ (ofTable table).issues, issue.code ≠ .compositionCycle ∧ issue.code ≠ .duplicateField := by
    decide +kernel
  have ancestors : ((ofTable table).layout? ⟨3⟩).map (·.ancestors) = some [.struct ⟨1⟩ [.list (.parameter "T")],
      .struct ⟨0⟩ [.list (.parameter "T")], .struct ⟨2⟩ [.list (.parameter "T")]] := by decide +kernel
  obtain ⟨own, found⟩ : ∃ own, table.struct? ⟨3⟩ = some own := Option.isSome_iff_exists.1 (by decide +kernel)
  obtain ⟨layout, looked, nodup, _, _, _, each⟩ := fields_laid_out .standard shelf sane ⟨3⟩ own found
  refine ⟨sane, layout, looked, nodup, ?_, each⟩
  rw [looked] at ancestors
  have listed : layout.ancestors = _ := Option.some.inj ancestors
  rw [listed]
  exact .tail _ (.head _)

end Compositions

end SemanticChecker
