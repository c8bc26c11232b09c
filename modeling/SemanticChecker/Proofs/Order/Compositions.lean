import SemanticChecker.Proofs.Composition.Flattening
import SemanticChecker.Proofs.Order.Tables

/-! Composition under other numbers. Merging members compares names, origins and types, so it comes to the same under
other numbers. Without cycles, then, every struct has the same layout in whatever order structs are declared. -/
namespace SemanticChecker

open List

open Relation (TransGen)

def ResolvedField.rename (ρ : Renaming) (field : ResolvedField) : ResolvedField :=
  { field with type := field.type.rename ρ, origin := ρ.struct field.origin }

def ResolvedMethod.rename (ρ : Renaming) (method : ResolvedMethod) : ResolvedMethod :=
  { method with signature := method.signature.rename ρ, origin := ρ.struct method.origin }

def CompositionIssue.rename (ρ : Renaming) : CompositionIssue → CompositionIssue
  | cycle members => cycle (members.map ρ.struct)
  | duplicateField owner field span => duplicateField (ρ.struct owner) field span
  | missingOverride owner unmet => missingOverride (ρ.struct owner) unmet
  | overrideMismatch owner method expected found span =>
    overrideMismatch (ρ.struct owner) method (expected.rename ρ) (found.rename ρ) span
  | ambiguousMethod owner method origins => ambiguousMethod (ρ.struct owner) method (origins.map ρ.struct)

namespace Layout

def rename (ρ : Renaming) (layout : Layout) : Layout where
  id := ρ.struct layout.id
  name := layout.name
  fields := layout.fields.map (ResolvedField.rename ρ)
  methods := layout.methods.map (ResolvedMethod.rename ρ)
  ancestors := layout.ancestors.map (Ty.rename ρ)
  concrete := layout.concrete

variable (ρ : Renaming) (layout : Layout)

theorem field?_rename (name : String) :
    (layout.rename ρ).field? name = (layout.field? name).map (ResolvedField.rename ρ) :=
  find?_map ..

theorem method?_rename (name : String) :
    (layout.rename ρ).method? name = (layout.method? name).map (ResolvedMethod.rename ρ) :=
  find?_map ..

theorem requiredArity_rename : (layout.rename ρ).requiredArity = layout.requiredArity := by
  rw [requiredArity, requiredArity, rename, ← map_reverse, dropWhile_map, length_map]
  rfl

end Layout

namespace Merge

def rename (ρ : Renaming) (m : Merge) : Merge where
  fields := m.fields.map (ResolvedField.rename ρ)
  methods := m.methods.map (ResolvedMethod.rename ρ)
  ancestors := m.ancestors.map (Ty.rename ρ)
  ambiguous := m.ambiguous.map fun (name, origins) => (name, origins.map ρ.struct)
  issues := m.issues.map (CompositionIssue.rename ρ)

variable (ρ : Renaming) (m : Merge)

theorem rename_report (issue : CompositionIssue) : (m.report issue).rename ρ = (m.rename ρ).report (issue.rename ρ) := by
  simp [report, rename]

theorem rename_addAncestor (t : Ty) : (m.addAncestor t).rename ρ = (m.rename ρ).addAncestor (t.rename ρ) := by
  have same : t.rename ρ ∈ m.ancestors.map (Ty.rename ρ) ↔ t ∈ m.ancestors :=
    mem_map_of_injective fun _ _ => Ty.rename_injective ρ
  simp only [addAncestor, rename, same]
  split <;> simp

theorem find?_field_rename (name : String) : (m.rename ρ).fields.find? (fun field => field.name == name) =
    (m.fields.find? fun field => field.name == name).map (ResolvedField.rename ρ) :=
  find?_map ..

theorem find?_method_rename (name : String) : (m.rename ρ).methods.find? (fun method => method.name == name) =
    (m.methods.find? fun method => method.name == name).map (ResolvedMethod.rename ρ) :=
  find?_map ..

theorem rename_replaceMethod (method : ResolvedMethod) :
    (m.replaceMethod method).rename ρ = (m.rename ρ).replaceMethod (method.rename ρ) := by
  simp only [replaceMethod, rename, map_set, findIdx_map]
  rfl

theorem rename_addOrigin (name : String) (existing incoming : StructId) : (m.addOrigin name existing incoming).rename ρ =
    (m.rename ρ).addOrigin name (ρ.struct existing) (ρ.struct incoming) := by
  have same : ((m.rename ρ).ambiguous.any fun entry => entry.1 == name) = m.ambiguous.any fun entry => entry.1 == name :=
    any_map ..
  have marked : ∀ entry : String × List StructId,
      (fun entry : String × List StructId => (entry.1, entry.2.map ρ.struct))
        (if entry.1 == name then (entry.1, entry.2 ++ [incoming]) else (entry.1, entry.2)) =
      if entry.1 == name then (entry.1, entry.2.map ρ.struct ++ [ρ.struct incoming])
      else (entry.1, entry.2.map ρ.struct) := by
    intro entry
    split <;> simp
  unfold addOrigin
  rw [show ((m.rename ρ).ambiguous.any fun (other, _) => other == name) = _ from same]
  split
  · simp only [rename, map_map]
    congr 1
    exact map_congr_left fun entry _ => marked entry
  · simp [rename]

theorem rename_inheritField (owner : StructId) (span : Span) (field : ResolvedField) :
    (inheritField owner span m field).rename ρ = inheritField (ρ.struct owner) span (m.rename ρ) (field.rename ρ) := by
  rw [inheritField, inheritField, show (field.rename ρ).name = field.name from rfl, find?_field_rename]
  cases m.fields.find? fun existing => existing.name == field.name with
  | none => simp [rename]
  | some existing =>
    have same : ((existing.rename ρ).origin = (field.rename ρ).origin ∧ (existing.rename ρ).type = (field.rename ρ).type) ↔
        existing.origin = field.origin ∧ existing.type = field.type :=
      and_congr ρ.struct_injective.eq_iff (Ty.rename_inj ρ)
    simp only [Option.map_some, same]
    split
    · rfl
    · exact rename_report ..

theorem rename_inheritMethod (owner : StructId) (span : Span) (method : ResolvedMethod) :
    (inheritMethod owner span m method).rename ρ =
      inheritMethod (ρ.struct owner) span (m.rename ρ) (method.rename ρ) := by
  rw [inheritMethod, inheritMethod, show (method.rename ρ).name = method.name from rfl, find?_method_rename]
  cases m.methods.find? fun existing => existing.name == method.name with
  | none => simp [rename]
  | some existing =>
    have origin : (existing.rename ρ).origin = (method.rename ρ).origin ↔ existing.origin = method.origin :=
      ρ.struct_injective.eq_iff
    have type : (existing.rename ρ).signature.type = (method.rename ρ).signature.type ↔
        existing.signature.type = method.signature.type := by
      simp [ResolvedMethod.rename]
    have reported : (if existing.signature.type = method.signature.type then m
          else m.report (.overrideMismatch owner method.name existing.signature.type method.signature.type span)).rename ρ =
        if existing.signature.type = method.signature.type then m.rename ρ
        else (m.rename ρ).report (.overrideMismatch (ρ.struct owner) method.name (existing.rename ρ).signature.type
          (method.rename ρ).signature.type span) := by
      split
      · rfl
      · simp [rename_report, CompositionIssue.rename, ResolvedMethod.rename]
    simp only [Option.map_some, origin, type]
    split
    · rfl
    · cases own : existing.hasBody with
      | false =>
        cases other : method.hasBody with
        | false => simp [ResolvedMethod.rename, own, other]
        | true => simp [ResolvedMethod.rename, own, other, rename_replaceMethod, reported]
      | true =>
        cases other : method.hasBody with
        | false => simp [ResolvedMethod.rename, own, other, reported]
        | true => simp [ResolvedMethod.rename, own, other, rename_addOrigin]

variable {table others : DeclTable}

theorem parentInstantiation_rename (h : table.Renames ρ others) (t : Ty) :
    parentInstantiation others (t.rename ρ) = (parentInstantiation table t).rename ρ := by
  cases t with
  | struct id arguments =>
    simp only [parentInstantiation, Ty.rename, h.struct?]
    cases table.struct? id with
    | none => rfl
    | some parent => simp
  | _ => rfl

theorem parentSpan_rename (own : StructDef) (t : Ty) : parentSpan (own.rename ρ) (t.rename ρ) = parentSpan own t := by
  have found : (own.rename ρ).shape.composes.find? (fun parent => parent.type == t.rename ρ) =
      (own.shape.composes.find? fun parent => parent.type == t).map (ComposedParent.rename ρ) := by
    refine (find?_map ..).trans (congrArg (Option.map _) (congrArg (List.find? · _) (funext fun parent => ?_)))
    exact Ty.rename_beq ρ parent.type t
  rw [parentSpan, parentSpan, found]
  cases own.shape.composes.find? fun parent => parent.type == t <;> rfl

theorem rename_foldl {α β : Type} {put : α → β} {step : Merge → α → Merge} {other : Merge → β → Merge}
    (same : ∀ m a, (step m a).rename ρ = other (m.rename ρ) (put a)) (items : List α) :
    (items.foldl step m).rename ρ = (items.map put).foldl other (m.rename ρ) := by
  induction items generalizing m with
  | nil => rfl
  | cons a items ih => rw [foldl_cons, ih, same, map_cons, foldl_cons]

theorem rename_inherit (h : table.Renames ρ others) (own : StructDef) (parent : Ty × Layout) :
    (inherit table own m parent).rename ρ =
      inherit others (own.rename ρ) (m.rename ρ) (parent.1.rename ρ, parent.2.rename ρ) := by
  simp only [inherit, parentInstantiation_rename ρ h, parentSpan_rename, Layout.rename]
  rw [rename_foldl ρ _ fun m method => ?_, rename_foldl ρ _ fun m field => ?_, rename_foldl ρ _ fun m t => ?_,
    rename_addAncestor]
  · rw [rename_addAncestor, Ty.rename_instantiate]
  · rw [rename_inheritField]
    simp [ResolvedField.rename]
    rfl
  · rw [rename_inheritMethod]
    simp [ResolvedMethod.rename]
    rfl

theorem rename_addOwnField (owner : StructId) (field : ResolvedField) :
    (addOwnField owner m field).rename ρ = addOwnField (ρ.struct owner) (m.rename ρ) (field.rename ρ) := by
  have same : ((m.rename ρ).fields.any fun existing => existing.name == field.name) =
      m.fields.any fun existing => existing.name == field.name := any_map ..
  rw [addOwnField, addOwnField, show (field.rename ρ).name = field.name from rfl, same]
  split
  · exact rename_report ..
  · simp [rename]

theorem rename_overrideMethod (owner : StructId) (method : ResolvedMethod) :
    (overrideMethod owner m method).rename ρ = overrideMethod (ρ.struct owner) (m.rename ρ) (method.rename ρ) := by
  let settled : Merge := { m with ambiguous := m.ambiguous.filter fun entry => entry.1 != method.name }
  have same : settled.rename ρ =
      { m.rename ρ with ambiguous := (m.rename ρ).ambiguous.filter fun entry => entry.1 != method.name } := by
    simp only [settled, rename, filter_map]
    rfl
  unfold overrideMethod
  dsimp only
  rw [show (method.rename ρ).name = method.name from rfl, find?_method_rename]
  cases m.methods.find? fun inherited => inherited.name == method.name with
  | none =>
    refine (congrArg (fun now : Merge => { now with methods := (m.methods ++ [method]).map (ResolvedMethod.rename ρ) })
      same).trans ?_
    rw [map_append]
    rfl
  | some inherited =>
    have type : (inherited.rename ρ).signature.type = (method.rename ρ).signature.type ↔
        inherited.signature.type = method.signature.type := by
      simp [ResolvedMethod.rename]
    rw [rename_replaceMethod]
    refine congrArg (replaceMethod · _) ?_
    simp only [type]
    split
    · exact same
    · rw [rename_report]
      refine (congrArg (report · _) same).trans (congrArg (report _) ?_)
      simp [CompositionIssue.rename, ResolvedMethod.rename]

theorem rename_addOwnMethods (owner : StructId) (declared : List String) (methods : List ResolvedMethod) :
    (addOwnMethods owner declared m methods).rename ρ =
      addOwnMethods (ρ.struct owner) declared (m.rename ρ) (methods.map (ResolvedMethod.rename ρ)) := by
  induction methods generalizing declared m with
  | nil => rfl
  | cons method rest ih =>
    have taken : ((m.rename ρ).fields.any fun field => field.name == method.name) =
        m.fields.any fun field => field.name == method.name := any_map ..
    rw [addOwnMethods, map_cons, addOwnMethods, ih, show (method.rename ρ).name = method.name from rfl, taken]
    refine congrArg (addOwnMethods _ _ · _) ?_
    split
    · exact rename_report ..
    · exact rename_overrideMethod ..

theorem rename_reportAmbiguous (owner : StructId) :
    (reportAmbiguous owner m).rename ρ = reportAmbiguous (ρ.struct owner) (m.rename ρ) :=
  @rename_foldl ρ m (String × List StructId) (String × List StructId) (fun entry => (entry.1, entry.2.map ρ.struct))
    (fun m entry => m.report (.ambiguousMethod owner entry.1 entry.2))
    (fun m entry => m.report (.ambiguousMethod (ρ.struct owner) entry.1 entry.2)) (fun m _ => rename_report ρ m _)
    m.ambiguous

theorem length_unmet_rename (names names' : TypeNames) (owner : StructId) :
    (unmet names' (ρ.struct owner) (m.rename ρ)).length = (unmet names owner m).length := by
  have same : ∀ method : ResolvedMethod, (!(method.rename ρ).hasBody && (method.rename ρ).origin != ρ.struct owner) =
      (!method.hasBody && method.origin != owner) := by
    intro method
    refine congrArg (!method.hasBody && ·) ?_
    rw [Bool.eq_iff_iff, bne_iff_ne, bne_iff_ne]
    exact ρ.struct_injective.ne_iff
  rw [unmet, unmet, length_map, length_map, rename, filter_map, length_map]
  exact congrArg (fun p => (m.methods.filter p).length) (funext same)

end Merge

namespace StructDef

variable {ρ : Renaming} {table others : DeclTable}

theorem mergeMembers_rename (h : table.Renames ρ others) (own : StructDef) (parents : List (Ty × Layout)) :
    (own.rename ρ).mergeMembers others (parents.map fun parent => (parent.1.rename ρ, parent.2.rename ρ)) =
      (own.mergeMembers table parents).rename ρ := by
  have fields : (own.rename ρ).ownFields = own.ownFields.map (ResolvedField.rename ρ) := by
    simp [ownFields, StructDef.rename, StructShape.rename, FieldDef.rename, ResolvedField.rename]
  have methods : (own.rename ρ).ownMethods = own.ownMethods.map (ResolvedMethod.rename ρ) := by
    simp [ownMethods, StructDef.rename, StructShape.rename, MethodDef.rename, ResolvedMethod.rename]
  rw [mergeMembers, mergeMembers, Merge.rename_reportAmbiguous, Merge.rename_addOwnMethods,
    Merge.rename_foldl ρ _ fun m field => m.rename_addOwnField ρ own.id field,
    Merge.rename_foldl ρ _ fun m parent => m.rename_inherit ρ h own parent, fields, methods]
  rfl

theorem compose_rename (h : table.Renames ρ others) (own : StructDef) (parents : List (Ty × Layout)) (tainted : Bool) :
    let composed := own.compose table parents tainted
    let other := (own.rename ρ).compose others (parents.map fun parent => (parent.1.rename ρ, parent.2.rename ρ)) tainted
    other.1.layout = composed.1.layout.rename ρ ∧ (other.2 = [] ↔ composed.2 = []) := by
  have merged := mergeMembers_rename h own parents
  simp only [compose, merged, show (own.rename ρ).id = ρ.struct own.id from rfl]
  generalize own.mergeMembers table parents = m
  have count := m.length_unmet_rename ρ table.names others.names own.id
  have bodies : (m.rename ρ).methods.all (fun method => method.hasBody) = m.methods.all fun method => method.hasBody :=
    all_map ..
  rw [bodies]
  cases mine : m.unmet table.names own.id with
  | nil =>
    rw [mine, length_nil, length_eq_zero_iff] at count
    rw [count]
    exact ⟨rfl, map_eq_nil_iff⟩
  | cons first rest =>
    cases yours : (m.rename ρ).unmet others.names (ρ.struct own.id) with
    | nil => simp [mine, yours] at count
    | cons other more => exact ⟨rfl, by simp⟩

end StructDef

namespace DeclTable.Renames

variable {ρ : Renaming} {table others : DeclTable} (h : table.Renames ρ others)

include h

theorem isSome_struct? (id : StructId) : (others.struct? (ρ.struct id)).isSome = (table.struct? id).isSome := by
  rw [h.struct?, Option.isSome_map]

theorem composes_iff {id above : StructId} :
    others.Composes (ρ.struct id) above ↔ ∃ mine, above = ρ.struct mine ∧ table.Composes id mine := by
  constructor
  · rintro ⟨_, found, named, declared⟩
    rw [h.struct?] at found
    obtain ⟨own, mine, rfl⟩ := Option.map_eq_some_iff.1 found
    obtain ⟨_, isOne, rfl⟩ := mem_map.1 named
    obtain ⟨parent, isParent, rfl⟩ := mem_map.1 isOne
    rw [show (parent.rename ρ).id = ρ.struct parent.id from rfl, h.isSome_struct?] at declared
    exact ⟨parent.id, rfl, own, mine, mem_map_of_mem isParent, declared⟩
  · rintro ⟨mine, rfl, own, found, named, declared⟩
    obtain ⟨parent, isParent, rfl⟩ := mem_map.1 named
    refine ⟨own.rename ρ, by rw [h.struct?, found]; rfl, ?_, by rw [h.isSome_struct?]; exact declared⟩
    exact mem_map.2 ⟨parent.rename ρ, mem_map_of_mem isParent, rfl⟩

theorem acyclic (numbered : others.Numbered) (acyclic : table.Acyclic) : others.Acyclic := by
  have back : ∀ {id last}, TransGen others.Composes (ρ.struct id) last →
      ∃ mine, last = ρ.struct mine ∧ TransGen table.Composes id mine := by
    intro id last way
    induction way with
    | single first =>
      obtain ⟨mine, rfl, composes⟩ := h.composes_iff.1 first
      exact ⟨mine, rfl, .single composes⟩
    | tail _ next ih =>
      obtain ⟨middle, rfl, before⟩ := ih
      obtain ⟨mine, rfl, composes⟩ := h.composes_iff.1 next
      exact ⟨mine, rfl, before.tail composes⟩
  intro id loop
  obtain ⟨_, ⟨own, found, _⟩, _⟩ := TransGen.head'_iff.1 loop
  obtain ⟨mine, isMine, rfl⟩ := mem_map.1 (h.structs.subset (mem_of_getElem? found))
  have isId : ρ.struct mine.id = id := numbered id _ found
  rw [← isId] at loop
  obtain ⟨other, same, way⟩ := back loop
  rw [← ρ.struct_injective same] at way
  exact acyclic mine.id way

/-- By induction up the composition lists, where no struct leads back to itself. -/
theorem flatten_rename (acyclic : table.Acyclic) (acyclic' : others.Acyclic) (id : StructId) :
    (others.flatten acyclic' (ρ.struct id)).1.layout = (table.flatten acyclic id).1.layout.rename ρ ∧
      ((others.flatten acyclic' (ρ.struct id)).2 = [] ↔ (table.flatten acyclic id).2 = []) := by
  induction id using acyclic.wellFounded.induction with
  | _ id ih =>
    have there := h.struct? id
    cases found : table.struct? id with
    | none =>
      rw [found] at there
      rw [flatten_undeclared acyclic found, flatten_undeclared acyclic' there, h.names.struct]
      exact ⟨rfl, Iff.rfl⟩
    | some own =>
      rw [found] at there
      have parents : flatParents acyclic' (own.rename ρ).shape.composes =
          (flatParents acyclic own.shape.composes).map fun parent => (parent.1.rename ρ, parent.2.rename ρ) := by
        rw [flatParents, flatParents, map_filterMap]
        refine (filterMap_map ..).trans (filterMap_congr fun parent isOne => ?_)
        simp only [Function.comp_apply, ComposedParent.rename, h.isSome_struct?]
        split
        · rename_i declared
          rw [(ih parent.id ⟨own, found, mem_map_of_mem isOne, declared⟩).1]
          rfl
        · rfl
      have tainted : ((own.rename ρ).shape.composes.any fun parent => (others.struct? parent.id).isNone) =
          own.shape.composes.any fun parent => (table.struct? parent.id).isNone := by
        refine (any_map ..).trans (congrArg own.shape.composes.any (funext fun parent => ?_))
        rw [Function.comp_apply, ComposedParent.rename, h.struct?, Option.isNone_map]
      rw [flatten_declared acyclic found, flatten_declared acyclic' there, parents, tainted]
      exact own.compose_rename h _ _

end DeclTable.Renames

structure Compositions.Renames (ρ : Renaming) (compositions others : Compositions) : Prop where
  layout? : ∀ id, others.layout? (ρ.struct id) = (compositions.layout? id).map (Layout.rename ρ)
  isConcrete : ∀ id, others.isConcrete (ρ.struct id) = compositions.isConcrete id

namespace Compositions

variable {table : DeclTable}

theorem find?_undeclared (numbered : table.Numbered) {id : StructId}
    (missing : table.struct? id = none) : (ofTable table).find? id = none := by
  refine lookup_eq_none_iff.2 fun entry mem => bne_iff_ne.2 ?_
  rintro rfl
  have declared := numbered.mem_ids.1 ((resolutions_perm numbered).subset (mem_map_of_mem mem))
  rw [missing] at declared
  cases declared

/-- Every issue is an error, so without errors there are none, and no struct composes itself. -/
theorem issues_eq_nil {compositions : Compositions} (silent : Harmless (compositions.diagnostics table)) :
    compositions.issues = [] := by
  cases here : compositions.issues with
  | nil => rfl
  | cons issue rest =>
    have isFirst : issue.diagnostic table ∈ compositions.diagnostics table := by
      rw [diagnostics, here]
      exact mem_cons_self
    have failed : (issue.diagnostic table).isError = true := by cases issue <;> rfl
    exact absurd (silent _ isFirst) (by rw [failed]; exact Bool.noConfusion)

theorem ofTable_renames {ρ : Renaming} {others : DeclTable} (h : table.Renames ρ others) (numbered : table.Numbered)
    (numbered' : others.Numbered) (silent : (ofTable table).issues = []) :
    (ofTable table).Renames ρ (ofTable others) ∧ (ofTable others).issues = [] := by
  have noCycle : (ofTable table).cycles = [] := congrArg cyclesOf silent
  have acyclic : table.Acyclic := fun id => DeclTable.not_transGen_of_acc (acc_of_cycles_eq_nil numbered noCycle id)
  have acyclic' := h.acyclic numbered' acyclic
  have each : ∀ id, (ofTable others).find? (ρ.struct id) = none ∧ (ofTable table).find? id = none ∨
      ∃ mine yours, (ofTable table).find? id = some mine ∧ (ofTable others).find? (ρ.struct id) = some yours ∧
        yours.layout = mine.layout.rename ρ := by
    intro id
    have there := h.struct? id
    cases found : table.struct? id with
    | none =>
      rw [found] at there
      exact .inl ⟨find?_undeclared numbered' there, find?_undeclared numbered found⟩
    | some own =>
      rw [found] at there
      refine .inr ⟨_, _, find?_eq_flatten acyclic numbered (by rw [found]; rfl),
        find?_eq_flatten acyclic' numbered' (by rw [there]; rfl), (h.flatten_rename acyclic acyclic' id).1⟩
  refine ⟨⟨fun id => ?_, fun id => ?_⟩, ?_⟩
  · rcases each id with ⟨there, here⟩ | ⟨mine, yours, here, there, same⟩
    · rw [layout?, layout?, there, here]
      rfl
    · rw [layout?, layout?, there, here, Option.map_some, same]
      rfl
  · rcases each id with ⟨there, here⟩ | ⟨mine, yours, here, there, same⟩
    · rw [isConcrete, isConcrete, there, here]
    · rw [isConcrete, isConcrete, there, here]
      simp only [Resolution.isConcrete, same]
      rfl
  · rw [eq_nil_iff_forall_not_mem]
    intro issue mem
    obtain ⟨own', isOne, isIssue⟩ := mem_flatMap.1 ((issues_perm acyclic' numbered').subset mem)
    obtain ⟨own, isMine, rfl⟩ := mem_map.1 (h.structs.subset isOne)
    have quiet : (table.flatten acyclic own.id).2 = [] := by
      rw [eq_nil_iff_forall_not_mem]
      intro issue mem
      have reported := (issues_perm acyclic numbered).symm.subset (mem_flatMap.2 ⟨own, isMine, mem⟩)
      rw [silent] at reported
      cases reported
    rw [show (own.rename ρ).id = ρ.struct own.id from rfl, (h.flatten_rename acyclic acyclic' own.id).2.2 quiet] at isIssue
    cases isIssue

end Compositions

end SemanticChecker
